import Descent.CommandLine.Directory
import Descent.Proofs.Emission.Delivery

/-!
# Generation as a whole

A recognizer is made as a whole or not at all, and what is left behind in a sink or in a file follows from that.
-/
namespace Descent

namespace CommandLine

variable {α β : Type} {host : Host} {quiet : Bool} {file path source : String} {o : Options} {settings : Settings}
  {bytes : List UInt8} {g : Grammar} {fault : Fault} {arguments : List String}

namespace Session

variable {first : Session α} {t u : Transcript}

theorem bind_of_ok {a : α} (h : first t = (.ok a, u)) (second : α → Session β) :
    (first >>= second) t = second a u := by
  change first.andThen second t = _
  rw [andThen, h]

theorem bind_of_error {failure : Failure} (h : first t = (.error failure, u)) (second : α → Session β) :
    (first >>= second) t = (.error failure, u) := by
  change first.andThen second t = _
  rw [andThen, h]

theorem lift_of_ok {result : Except Fault α} {a : α} (h : result = .ok a) (t : Transcript) :
    lift result t = (.ok a, t) := by
  rw [h]
  rfl

theorem lift_of_error {result : Except Fault α} (h : result = .error fault) (t : Transcript) :
    lift result t = (.error (.fault fault), t) := by
  rw [h]
  rfl

theorem save_of_ok (h : host.write path = .ok ()) (text : String) (t : Transcript) :
    save host path text t = (.ok (), { t with saved := some (path, text) }) := by
  rw [save, h]

/-- The second transcript has nothing but notes in addition. -/
def Notes (t u : Transcript) : Prop := ∃ notes, u = { t with status := t.status ++ notes }

theorem Notes.trans {v : Transcript} (h : Notes t u) (h' : Notes u v) : Notes t v := by
  obtain ⟨notes, rfl⟩ := h
  obtain ⟨more, rfl⟩ := h'
  exact ⟨notes ++ more, by simp only [String.append_assoc]⟩

theorem exists_note (quiet : Bool) (message : String) (t : Transcript) :
    ∃ u, note quiet message t = (.ok (), u) ∧ Notes t u := by
  cases quiet with
  | true => exact ⟨t, rfl, "", by simp⟩
  | false => exact ⟨_, rfl, message ++ "\n", by simp [String.append_assoc]⟩

end Session

theorem Failure.ending_fault (running : ∀ count, fault ≠ .noRoom count) :
    (Failure.fault fault).ending = (1, "Error: " ++ faultReport fault ++ "\n") := by
  unfold Failure.ending
  split
  · rename_i count broken
    cases broken
    exact absurd rfl (running count)
  · rfl

open Session

theorem exists_load (read : host.read file = .ok bytes) (listed : Listing.readBytes bytes = .ok g) (quiet : Bool)
    (t : Transcript) : ∃ u, load host quiet file t = (.ok g, u) ∧ Notes t u := by
  obtain ⟨u, loading, noted⟩ := exists_note quiet ("Loading grammar from " ++ file ++ "...") t
  obtain ⟨v, loaded, noted'⟩ := exists_note quiet
    ("Loaded " ++ toString g.nonTerminals.length ++ " non-terminals, " ++
      toString g.terminals.length ++ " terminals, " ++ toString g.alternativeCount ++ " alternatives.") u
  have got : (host.read file).mapError Fault.file = .ok bytes := by
    rw [read]
    rfl
  refine ⟨v, ?_, noted.trans noted'⟩
  rw [load, bind_of_ok loading, bind_of_ok (lift_of_ok got u), bind_of_ok (lift_of_ok listed u), bind_of_ok loaded]
  rfl

/-- What a run with an output path does once its settings and its grammar are there. -/
theorem exists_generate (resolved : resolve host o = .ok settings) (read : host.read file = .ok bytes)
    (listed : Listing.readBytes bytes = .ok g) (quiet : Bool) (path : String) (t : Transcript) :
    ∃ u, Notes t u ∧ generate host quiet file (some path) o t =
      (do
        let source ← lift (g.emit settings.target settings.mode settings.comments)
        save host path source
        note quiet ("Wrote " ++ settings.target.label ++ " recognizer to " ++ path) : Session Unit) u := by
  obtain ⟨u, loaded, noted⟩ := exists_load read listed quiet t
  exact ⟨u, noted, by rw [generate, bind_of_ok (lift_of_ok resolved t), bind_of_ok loaded]⟩

/-- The arguments ask for the recognizer of a grammar in a file, and the host has the settings and the grammar. -/
def GeneratesInto (host : Host) (arguments : List String) (settings : Settings) (g : Grammar) (path : String) : Prop :=
  ∃ quiet file o bytes, invocation? false arguments = some ⟨quiet, .generate file (some path) o⟩ ∧
    resolve host o = .ok settings ∧ host.read file = .ok bytes ∧ Listing.readBytes bytes = .ok g

/-- Without a source there is no file: the run reports why, and leaves nothing else behind but notes. -/
theorem run_of_fault (asked : GeneratesInto host arguments settings g path)
    (h : g.emit settings.target settings.mode settings.comments = .error fault) :
    ∃ notes, run host arguments =
      (1, { output := "", status := notes ++ "Error: " ++ faultReport fault ++ "\n", saved := none }) := by
  obtain ⟨quiet, file, o, bytes, invoked, resolved, read, listed⟩ := asked
  obtain ⟨u, ⟨notes, rfl⟩, generated⟩ := exists_generate resolved read listed quiet path {}
  rw [bind_of_error (lift_of_error h _)] at generated
  have running : ∀ count, fault ≠ .noRoom count := by
    rintro count rfl
    exact Grammar.emit_ne_noRoom g settings.target settings.mode settings.comments count h
  refine ⟨"" ++ notes, ?_⟩
  simp only [run, invoked, perform, generated, Failure.ending_fault running, String.append_assoc]

/-- A source that is made is what the file holds. -/
theorem run_of_emit (asked : GeneratesInto host arguments settings g path) (writable : host.write path = .ok ())
    (h : g.emit settings.target settings.mode settings.comments = .ok source) :
    ∃ notes, run host arguments = (0, { output := "", status := notes, saved := some (path, source) }) := by
  obtain ⟨quiet, file, o, bytes, invoked, resolved, read, listed⟩ := asked
  obtain ⟨u, ⟨notes, rfl⟩, generated⟩ := exists_generate resolved read listed quiet path {}
  rw [bind_of_ok (lift_of_ok h _), bind_of_ok (save_of_ok writable _ _)] at generated
  obtain ⟨v, written, ⟨more, rfl⟩⟩ := exists_note quiet
    ("Wrote " ++ settings.target.label ++ " recognizer to " ++ path) _
  rw [written] at generated
  exact ⟨_, by simp only [run, invoked, perform, generated]; rfl⟩

end CommandLine

namespace Grammar

open CommandLine Emission

/-- Generation is all or nothing. A source is made exactly if the start symbol is declared, every call is declared,
and the target can spell all; the first of these that fails is the fault. With a fault, a sink holds nothing and no
file is written; with a source, a sink holds all of it or as much as it has room for, in whatever pieces it takes
the bytes, and only one that holds all of it is flushed. -/
theorem generation_all_or_nothing (g : Grammar) (settings : Settings) :
    ((∃ source, g.emit settings.target settings.mode settings.comments = .ok source) ↔
      g.StartDeclared ∧ g.CallsDeclared settings.mode ∧ g.Spellable settings.target) ∧
    (¬g.StartDeclared →
      g.emit settings.target settings.mode settings.comments = .error (.badStart g.start)) ∧
    (g.StartDeclared → ¬g.CallsDeclared settings.mode →
      ∃ callee caller i,
        g.emit settings.target settings.mode settings.comments = .error (.undeclaredCall callee caller i) ∧
        g.Calls settings.mode callee caller i ∧ callee ∉ g.nonTerminals) ∧
    (g.StartDeclared → g.CallsDeclared settings.mode → ¬g.Spellable settings.target →
      g.emit settings.target settings.mode settings.comments = .error (.unrepresentable 0 .c)) ∧
    (∀ fault, g.emit settings.target settings.mode settings.comments = .error fault →
      (∀ sink, deliver g settings.target settings.mode settings.comments sink = (.error fault, [])) ∧
      ∀ host arguments path, GeneratesInto host arguments settings g path →
        ∃ notes, run host arguments =
          (1, { output := "", status := notes ++ "Error: " ++ faultReport fault ++ "\n", saved := none })) ∧
    (∀ source, g.emit settings.target settings.mode settings.comments = .ok source →
      (∀ sink, (Text.Utf8.encode source.toList).length ≤ sink.capacity →
        deliver g settings.target settings.mode settings.comments sink =
          (sink.flush.mapError .file, Text.Utf8.encode source.toList)) ∧
      (∀ sink, sink.capacity < (Text.Utf8.encode source.toList).length →
        deliver g settings.target settings.mode settings.comments sink =
          (.error .sinkFull, (Text.Utf8.encode source.toList).take sink.capacity)) ∧
      ∀ host arguments path, GeneratesInto host arguments settings g path → host.write path = .ok () →
        ∃ notes, run host arguments = (0, { output := "", status := notes, saved := some (path, source) })) := by
  refine ⟨exists_emit_iff, emit_badStart, emit_undeclaredCall, emit_unrepresentable, ?fault, ?source⟩
  case fault =>
    intro fault h
    exact ⟨deliver_of_fault h, fun host arguments path asked => run_of_fault asked h⟩
  case source =>
    intro source h
    refine ⟨fun sink room => ?_, fun sink full => ?_, fun host arguments path asked writable => ?_⟩
    · rw [deliver_of_emit h, if_pos room]
    · rw [deliver_of_emit h, if_neg (Nat.not_le.2 full)]
    · exact run_of_emit asked writable h

/-- `S → aZ`, with `Z` not declared, as a listing. -/
def adriftText : String := "G = (\n\x7bS\x7d\n\x7ba\x7d\nS\n\x7b\nS->aZ\n\x7d\n)\n"

example :
    let ended := run (Directory.host [("adrift", Text.Utf8.encode adriftText.toList)] 0)
      ["generate", "adrift", "recognizer.c", "-q", "--target=c"]
    ended.1 = 1 ∧ ended.2.saved = none := by decide +kernel

end Grammar

end Descent
