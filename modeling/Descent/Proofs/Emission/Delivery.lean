import Descent.Emission.Sink
import Descent.Proofs.Emission.Determined
import Descent.Proofs.Ruleset.WellFormed

/-!
# Delivery

When a source is made and which fault there is otherwise, and what a sink holds of a source that it cannot take as
a whole: the pieces in which it takes the bytes do not matter.
-/
namespace Descent

variable {g : Grammar} {t : Target} {mode : EscapeMode} {comments : Bool} {R : Ruleset}

namespace Grammar

/-- In a C program neither the escape marker nor a byte of a pattern is NUL. -/
def Spellable (g : Grammar) (t : Target) : Prop :=
  t = .c → g.escape ≠ 0 ∧ ∀ s ∈ g.nonTerminals, ∀ rhs ∈ g.alternatives s, 0 ∉ rhs

end Grammar

namespace Ruleset

theorem mem_spelled (built : ofGrammar g mode = .ok R) {b : Symbol} :
    b ∈ R.spelled ↔ b = g.escape ∨ ∃ s ∈ g.nonTerminals, ∃ rhs ∈ g.alternatives s, b ∈ rhs := by
  rw [spelled, rules_eq built, rulesOf, escape_eq built]
  simp [rights_ruleOf]

theorem find?_spelled_of_spellable (built : ofGrammar g mode = .ok R) (h : g.Spellable t) :
    R.spelled.find? (!t.canSpell ·) = none := by
  rw [List.find?_eq_none]
  intro b hb
  cases t with
  | rust => simp [Target.canSpell]
  | c =>
    obtain ⟨marker, patterns⟩ := h rfl
    have visible : b ≠ 0 := by
      rintro rfl
      rcases (mem_spelled built).1 hb with same | ⟨s, hs, rhs, hrhs, inside⟩
      · exact marker same.symm
      · exact patterns s hs rhs hrhs inside
    simpa [Target.canSpell] using visible

/-- In a ruleset that cannot be spelled, the first byte found is NUL, as no other is ever refused. -/
theorem find?_spelled_of_not_spellable (built : ofGrammar g mode = .ok R) (h : ¬g.Spellable t) :
    t = .c ∧ R.spelled.find? (!t.canSpell ·) = some 0 := by
  obtain ⟨rfl, unspelled⟩ := Classical.not_imp.1 h
  have refused : ∀ b : Symbol, (!Target.c.canSpell b) = true ↔ b = 0 := fun b => by simp [Target.canSpell]
  have inside : 0 ∈ R.spelled := by
    refine (mem_spelled built).2 (or_iff_not_imp_left.2 fun marker => ?_)
    by_contra none
    exact unspelled ⟨Ne.symm marker, fun s hs rhs hrhs nul => none ⟨s, hs, rhs, hrhs, nul⟩⟩
  refine ⟨rfl, ?_⟩
  cases found : R.spelled.find? (!Target.c.canSpell ·) with
  | none => exact absurd ((refused 0).2 rfl) (List.find?_eq_none.1 found 0 inside)
  | some b =>
    have fault := List.find?_some found
    rw [(refused b).1 fault]

end Ruleset

namespace Grammar

open Ruleset

theorem emit_of_fault {fault : Fault} (h : ofGrammar g mode = .error fault) (t : Target) (comments : Bool) :
    g.emit t mode comments = .error fault := by
  rw [emit, h]
  rfl

theorem emit_badStart (h : ¬g.StartDeclared) : g.emit t mode comments = .error (.badStart g.start) :=
  emit_of_fault (ofGrammar_badStart h) t comments

theorem emit_undeclaredCall (started : g.StartDeclared) (h : ¬g.CallsDeclared mode) :
    ∃ callee caller i, g.emit t mode comments = .error (.undeclaredCall callee caller i) ∧
      g.Calls mode callee caller i ∧ callee ∉ g.nonTerminals := by
  obtain ⟨callee, caller, i, fault, called, unknown⟩ := ofGrammar_undeclaredCall started h
  exact ⟨callee, caller, i, emit_of_fault fault t comments, called, unknown⟩

theorem emit_unrepresentable (started : g.StartDeclared) (known : g.CallsDeclared mode) (h : ¬g.Spellable t) :
    g.emit t mode comments = .error (.unrepresentable 0 .c) := by
  obtain ⟨R, built⟩ := exists_ofGrammar_iff.2 ⟨started, known⟩
  obtain ⟨rfl, found⟩ := find?_spelled_of_not_spellable built h
  rw [emit, built]
  simp only [bind, Except.bind, Ruleset.emit, found]

/-- No list is asked for, so making a source is never broken off. -/
theorem emit_ne_noRoom (g : Grammar) (t : Target) (mode : EscapeMode) (comments : Bool) (count : Nat) :
    g.emit t mode comments ≠ .error (.noRoom count) := by
  intro broken
  by_cases started : g.StartDeclared
  · by_cases known : g.CallsDeclared mode
    · by_cases spelled : g.Spellable t
      · obtain ⟨R, built⟩ := exists_ofGrammar_iff.2 ⟨started, known⟩
        rw [emit_of_built built (find?_spelled_of_spellable built spelled) comments] at broken
        cases broken
      · rw [emit_unrepresentable started known spelled] at broken
        cases broken
    · obtain ⟨callee, caller, i, fault, -⟩ := @emit_undeclaredCall g t mode comments started known
      rw [fault] at broken
      cases broken
  · rw [emit_badStart started] at broken
    cases broken

/-- A source is made exactly of a grammar that has a ruleset and can be spelled. -/
theorem exists_emit_iff :
    (∃ source, g.emit t mode comments = .ok source) ↔
      g.StartDeclared ∧ g.CallsDeclared mode ∧ g.Spellable t := by
  constructor
  · rintro ⟨source, emitted⟩
    obtain ⟨R, built, -⟩ := exists_ruleset_of_emit emitted
    obtain ⟨started, known⟩ := exists_ofGrammar_iff.1 ⟨R, built⟩
    refine ⟨started, known, ?_⟩
    by_contra unspelled
    rw [emit_unrepresentable started known unspelled] at emitted
    cases emitted
  · rintro ⟨started, known, spelled⟩
    obtain ⟨R, built⟩ := exists_ofGrammar_iff.2 ⟨started, known⟩
    exact ⟨_, emit_of_built built (find?_spelled_of_spellable built spelled) comments⟩

end Grammar

namespace Emission

/-- What a sink takes in pieces of its own choice is what it would take at once. -/
theorem Sink.write_eq (sink : Sink) (turn room : Nat) (written bytes : List UInt8) :
    sink.write turn room written bytes =
      if bytes.length ≤ room then (.ok (), written ++ bytes)
      else (.error .sinkFull, written ++ bytes.take room) := by
  fun_induction Sink.write sink turn room written bytes with
  | case1 turn room written => simp
  | case2 turn written bytes nonempty =>
    have offered : ¬bytes.length ≤ 0 := by simpa using nonempty
    rw [if_neg offered, List.take_zero, List.append_nil]
  | case3 turn room written bytes nonempty spare n ih =>
    have within : n ≤ room ∧ n ≤ bytes.length := by
      simp only [n, Sink.piece]
      omega
    have fits : bytes.length - n ≤ room - n ↔ bytes.length ≤ room := by omega
    have split : bytes.take n ++ (bytes.drop n).take (room - n) = bytes.take room := by
      rw [← List.take_add, Nat.add_sub_cancel' within.1]
    rw [ih, List.length_drop]
    simp only [fits, List.append_assoc, List.take_append_drop, split]

example : (Sink.mk 5 (fun _ => 2) (.ok ())).write 0 5 [] [97, 98, 99, 100, 101, 102] =
    (.error .sinkFull, [97, 98, 99, 100, 101]) := by decide +kernel

theorem deliver_of_fault {fault : Fault} (h : g.emit t mode comments = .error fault) (sink : Sink) :
    deliver g t mode comments sink = (.error fault, []) := by
  rw [deliver, h]

/-- A source that is made is delivered as far as the sink has room for it; only a sink that has all of it is flushed. -/
theorem deliver_of_emit {source : String} (h : g.emit t mode comments = .ok source) (sink : Sink) :
    deliver g t mode comments sink =
      if (Text.Utf8.encode source.toList).length ≤ sink.capacity then
        (sink.flush.mapError .file, Text.Utf8.encode source.toList)
      else (.error .sinkFull, (Text.Utf8.encode source.toList).take sink.capacity) := by
  rw [deliver, h]
  simp only [sink.write_eq, List.nil_append]
  by_cases room : (Text.Utf8.encode source.toList).length ≤ sink.capacity
  · rw [if_pos room, if_pos room]
  · rw [if_neg room, if_neg room]

end Emission

end Descent
