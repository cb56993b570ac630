import Descent.Grammar.Draft
import Descent.Proofs.Grammar.History
import Descent.Proofs.Ruleset.Escapes

/-!
# Drafts and rulesets read escapes alike

A draft finds the terminals of a right-hand side byte by byte, a ruleset looks ahead behind a marker. They agree on which
bytes are literals, so a drafted grammar declares them all, as long as the marker is set before the first rule.
-/
namespace Descent.Grammar

variable {g : Grammar} {lines : List Draft} {line : Draft} {marker : Symbol}

namespace Draft

/-- The terminals that a line names: those listed, or the literals of a right-hand side as a ruleset reads it. -/
def namedTerminals (marker : Symbol) : Draft → List Symbol
  | .terminals symbols => symbols
  | .rule _ rhs => Step.literals (Step.all marker .literal rhs)
  | _ => []

def namedNonTerminals : Draft → List Symbol
  | .nonTerminals symbols => symbols
  | .rule lhs _ => [lowByte lhs]
  | _ => []

/-- The right-hand side that a line adds to a symbol. -/
def right? (s : Symbol) : Draft → Option (List UInt8)
  | .rule lhs rhs => if lowByte lhs = s then some rhs else none
  | _ => none

def isRule : Draft → Bool
  | .rule _ _ => true
  | _ => false

/-- The escape marker that a line sets. -/
def marker? : Draft → Option Symbol
  | .escape marker => some (lowByte marker)
  | _ => none

end Draft

/-- No line behind a rule sets the escape marker. -/
def EscapeFirst (lines : List Draft) : Prop :=
  lines.Pairwise fun earlier later => earlier.isRule = true → later.marker? = none

instance : Decidable (EscapeFirst lines) := inferInstanceAs (Decidable (lines.Pairwise _))

/-- The terminals that a draft finds in some bytes are the literals among their steps. -/
theorem mentioned_eq_literals (marker : Symbol) (escaped : Bool) (rhs : List UInt8) :
    mentioned marker escaped rhs = Step.literals (Step.readFrom marker escaped rhs) := by
  induction rhs generalizing escaped with
  | nil => cases escaped <;> rfl
  | cons b rest ih =>
    cases escaped with
    | true => simp [mentioned, Step.readFrom, ih]
    | false =>
      by_cases marked : b = marker
      · simp [mentioned, Step.readFrom, Symbol.kind, marked, ih]
      · cases upper : Symbol.isNonTerminal b with
        | false => simp [mentioned, Step.readFrom, Step.bare, Symbol.kind, marked, upper, ih]
        | true =>
          have passed : (Symbol.Kind.nonTerminal == Symbol.Kind.escape) = false := rfl
          simp [mentioned, Step.readFrom, Step.bare, Symbol.kind, marked, upper, ih, passed]

section Line

/-- What a grammar holds after a line. -/
structure AfterLine (g : Grammar) (line : Draft) (h : Grammar) : Prop where
  escape : h.escape = line.marker?.getD g.escape
  terminals : h.terminals = (line.namedTerminals g.escape).foldl enlist g.terminals
  nonTerminals : h.nonTerminals = line.namedNonTerminals.foldl enlist g.nonTerminals
  alternatives : ∀ s, h.alternatives s = g.alternatives s ++ (line.right? s).toList

/-- Each line declares what it names, adds its right-hand side if it is a rule, and leaves the rest alone. -/
theorem afterLine_draft (g : Grammar) (line : Draft) : AfterLine g line (g.draft line) := by
  cases line with
  | nonTerminals symbols =>
    rw [draft, foldl_declareNonTerminal]
    exact ⟨rfl, rfl, rfl, fun s => (List.append_nil _).symm⟩
  | terminals symbols =>
    rw [draft, foldl_declareTerminal]
    exact ⟨rfl, rfl, rfl, fun s => (List.append_nil _).symm⟩
  | rule lhs rhs =>
    rw [draft, foldl_declareTerminal, mentioned_eq_literals, ← Step.all_literal_eq]
    refine ⟨rfl, rfl, rfl, fun s => ?_⟩
    rw [alternatives_addAlternative, Draft.right?]
    split
    · rfl
    · exact (List.append_nil _).symm
  | _ => exact ⟨rfl, rfl, rfl, fun s => (List.append_nil _).symm⟩

theorem escape_draft (g : Grammar) (unset : line.marker? = none) : (g.draft line).escape = g.escape := by
  rw [(afterLine_draft g line).escape, unset, Option.getD_none]

/-- Only rules are read with the marker. -/
theorem namedTerminals_of_not_isRule (other : line.isRule = false) (marker marker' : Symbol) :
    line.namedTerminals marker = line.namedTerminals marker' := by
  cases line with
  | rule lhs rhs => cases other
  | _ => rfl

end Line

section Lines

theorem escape_foldl_draft (unset : ∀ line ∈ lines, line.marker? = none) :
    (lines.foldl draft g).escape = g.escape := by
  induction lines generalizing g with
  | nil => rfl
  | cons line lines ih =>
    rw [List.foldl_cons, ih fun later hlater => unset later (List.mem_cons_of_mem _ hlater)]
    exact escape_draft g (unset line List.mem_cons_self)

/-- With the marker set before the first rule, all rules are read with the marker that the grammar ends up with. -/
theorem terminals_foldl_draft (ordered : EscapeFirst lines) :
    (lines.foldl draft g).terminals =
      (lines.flatMap (Draft.namedTerminals (lines.foldl draft g).escape)).foldl enlist g.terminals := by
  induction lines generalizing g with
  | nil => rfl
  | cons line lines ih =>
    obtain ⟨first, ordered⟩ := List.pairwise_cons.1 ordered
    -- a rule is read with the marker before it, and no line behind it sets another
    have kept : line.namedTerminals (lines.foldl draft (g.draft line)).escape = line.namedTerminals g.escape := by
      cases isRule : line.isRule with
      | false => exact namedTerminals_of_not_isRule isRule _ _
      | true =>
        have own : line.marker? = none := by
          cases line with
          | escape marker => cases isRule
          | _ => rfl
        rw [escape_foldl_draft fun later hlater => first later hlater isRule, escape_draft g own]
    rw [List.foldl_cons, ih ordered, List.flatMap_cons, List.foldl_append, kept, (afterLine_draft g line).terminals]

theorem nonTerminals_foldl_draft :
    (lines.foldl draft g).nonTerminals = (lines.flatMap Draft.namedNonTerminals).foldl enlist g.nonTerminals := by
  induction lines generalizing g with
  | nil => rfl
  | cons line lines ih =>
    rw [List.foldl_cons, ih, List.flatMap_cons, List.foldl_append, (afterLine_draft g line).nonTerminals]

theorem alternatives_foldl_draft (s : Symbol) :
    (lines.foldl draft g).alternatives s = g.alternatives s ++ lines.filterMap (Draft.right? s) := by
  induction lines generalizing g with
  | nil => exact (List.append_nil _).symm
  | cons line lines ih =>
    rw [List.foldl_cons, ih, (afterLine_draft g line).alternatives, List.append_assoc]
    cases h : line.right? s with
    | none => rw [List.filterMap_cons_none h]; rfl
    | some rhs => rw [List.filterMap_cons_some h]; rfl

/-- The right-hand sides of a drafted grammar are those of the rules. -/
theorem exists_rule_of_mem {start : Char} {s : Symbol} {rhs : List UInt8}
    (h : rhs ∈ (ofDraft start lines).alternatives s) : ∃ lhs, lowByte lhs = s ∧ .rule lhs rhs ∈ lines := by
  have none : (empty.setStart (lowByte start)).alternatives s = [] := alternatives_empty s
  rw [ofDraft, alternatives_foldl_draft, none, List.nil_append] at h
  obtain ⟨line, hline, added⟩ := List.mem_filterMap.1 h
  cases line with
  | rule lhs right =>
    rw [Draft.right?] at added
    split at added
    · rename_i same
      cases added
      exact ⟨lhs, same, hline⟩
    · cases added
  | _ => cases added

end Lines

/-- Where no escape marker is set behind a rule, a drafted grammar declares as terminals what its lines list and, in
between, the literals of each right-hand side as a ruleset reads it, and as non-terminals what its lines list and their
left-hand sides, each at its first mention. So no alternative has a literal that is not declared, whichever byte the
marker is and however markers are heeded. -/
theorem ofDraft_reads (start : Char) (lines : List Draft) (ordered : EscapeFirst lines) :
    let g := ofDraft start lines
    g.terminals = (lines.flatMap (Draft.namedTerminals g.escape)).eraseDups ∧
    g.nonTerminals = (lines.flatMap Draft.namedNonTerminals).eraseDups ∧
    ∀ mode s, ∀ rhs ∈ g.alternatives s, ∀ b, .literal b ∈ Step.all g.escape mode rhs → b ∈ g.terminals := by
  intro g
  have terminals : g.terminals = (lines.flatMap (Draft.namedTerminals g.escape)).eraseDups :=
    (terminals_foldl_draft ordered).trans (foldl_enlist_eq_eraseDups _)
  have nonTerminals : g.nonTerminals = (lines.flatMap Draft.namedNonTerminals).eraseDups :=
    nonTerminals_foldl_draft.trans (foldl_enlist_eq_eraseDups _)
  refine ⟨terminals, nonTerminals, fun mode s rhs hrhs b read => ?_⟩
  obtain ⟨lhs, -, hline⟩ := exists_rule_of_mem hrhs
  rw [terminals, List.mem_eraseDups, List.mem_flatMap]
  exact ⟨.rule lhs rhs, hline, Step.mem_literals.2 (Step.literal_mem_all_literal read)⟩

/-- A capital letter as the marker: doubled, before another capital letter, before a byte that is not ASCII, and last. -/
def capitals : List Draft :=
  [.terminals [120], .escape 'Q', .nonTerminals [84], .rule 'S' [81, 81, 97, 81, 83, 195, 169, 84, 81],
    .rule 'S' [81, 66, 120, 81, 195]]

theorem ofDraft_reads_capitals :
    EscapeFirst capitals ∧ (ofDraft 'S' capitals).escape = 81 ∧
    (ofDraft 'S' capitals).terminals = [120, 81, 97, 83, 195, 169, 66] ∧
    (ofDraft 'S' capitals).nonTerminals = [84, 83] ∧
    ∀ mode, ∀ rhs ∈ (ofDraft 'S' capitals).alternatives 83, ∀ b, .literal b ∈ Step.all 81 mode rhs →
      b ∈ (ofDraft 'S' capitals).terminals := by
  have ordered : EscapeFirst capitals := by decide
  obtain ⟨terminals, nonTerminals, read⟩ := ofDraft_reads 'S' capitals ordered
  refine ⟨ordered, by decide +kernel, terminals.trans ?_, nonTerminals.trans ?_, fun mode => read mode 83⟩
  · decide +kernel
  · decide +kernel

end Descent.Grammar
