import Descent.Proofs.Json.Decimal
import Descent.Proofs.Json.Value
import Descent.Settings.Reader

/-!
# Settings in any layout

An object may hold the fields in any order, between members of other names with any values and with any white space.
What the reader makes of it depends on the fields alone: each of them is taken over once, and a second time is a fault.
-/
namespace Descent.Settings

open Json

/-- What an object holds: a field with the value that it has in some settings, or a member of another name. -/
inductive Entry
  | field (f : Field) (c : Settings)
  | other

/-- The value of a field as it is written. -/
inductive Shows (c : Settings) : Field → List Char → Prop
  | target {text : List Char} : Spells c.target.label.toList text → Shows c .target (quoted text)
  | mode {text : List Char} : Spells c.mode.label.toList text → Shows c .mode (quoted text)
  | unlimited : c.maxDepth = none → Shows c .maxDepth ['n', 'u', 'l', 'l']
  | limited {w : UInt64} : c.maxDepth = some w → Shows c .maxDepth (Nat.toDigits 10 w.toNat)
  | commented : c.comments = true → Shows c .comments ['t', 'r', 'u', 'e']
  | uncommented : c.comments = false → Shows c .comments ['f', 'a', 'l', 's', 'e']

/-- A member of an object as it is written, from its key to its value. -/
inductive Entry.Writes : Entry → List Char → Prop
  | field {f : Field} {c : Settings} {key before behind value : List Char} : Spells f.label.toList key → Gap before →
    Gap behind → Shows c f value → Writes (.field f c) (quoted key ++ (before ++ ':' :: (behind ++ value)))
  | other {name key before behind value : List Char} : Spells name key → (∀ f : Field, name ≠ f.label.toList) →
    Gap before → Gap behind → IsValue value → Writes .other (quoted key ++ (before ++ ':' :: (behind ++ value)))

/-- Some members, parted by commas. -/
inductive Members : List Entry → List Char → Prop
  | last {e : Entry} {before member behind : List Char} : Gap before → e.Writes member → Gap behind →
    Members [e] (before ++ (member ++ behind))
  | more {e : Entry} {entries : List Entry} {before member behind others : List Char} : Gap before → e.Writes member →
    Gap behind → Members entries others → Members (e :: entries) (before ++ (member ++ (behind ++ ',' :: others)))

/-- The text of an object with these members, in this order. -/
inductive Layout : List Entry → List Char → Prop
  | empty {front gap back : List Char} : Gap front → Gap gap → Gap back →
    Layout [] (front ++ '\x7b' :: (gap ++ '\x7d' :: back))
  | members {entries : List Entry} {front body back : List Char} : Gap front → Members entries body → Gap back →
    Layout entries (front ++ '\x7b' :: (body ++ '\x7d' :: back))

/-- The fields among the members of an object. -/
def fields (entries : List Entry) : List Field :=
  entries.filterMap fun
    | .field f _ => some f
    | .other => none

/-- Settings with one field taken over from others. -/
def put (c d : Settings) : Field → Settings
  | .target => { c with target := d.target }
  | .mode => { c with mode := d.mode }
  | .maxDepth => { c with maxDepth := d.maxDepth }
  | .comments => { c with comments := d.comments }

/-- Settings with some fields as they are and the defaults in the others. -/
def keep (c : Settings) (kept : List Field) : Settings where
  target := if .target ∈ kept then c.target else ({} : Settings).target
  mode := if .mode ∈ kept then c.mode else ({} : Settings).mode
  maxDepth := if .maxDepth ∈ kept then c.maxDepth else ({} : Settings).maxDepth
  comments := if .comments ∈ kept then c.comments else ({} : Settings).comments

/-- What one member does to the fields seen so far and to the settings. -/
def record : List Field × Settings → Entry → Except SettingsFault (List Field × Settings)
  | state, .other => .ok state
  | (seen, c), .field f d => if f ∈ seen then .error .mismatch else .ok (f :: seen, c.put d f)

variable {c d : Settings} {f : Field} {e : Entry} {entries : List Entry} {seen : List Field}
  {text gap rest body member value : List Char} {fuel : Nat}

section Fields

theorem labelled?_target (t : Target) : labelled? Target.label [.rust, .c] t.label.toList = some t := by
  cases t <;> decide

theorem labelled?_mode (m : EscapeMode) : labelled? EscapeMode.label [.literal, .skip] m.label.toList = some m := by
  cases m <;> decide

theorem labelled?_field (f : Field) : labelled? Field.label Field.all f.label.toList = some f := by
  cases f <;> decide

theorem labelled?_other {name : List Char} (other : ∀ f : Field, name ≠ f.label.toList) :
    labelled? Field.label Field.all name = none := by
  rw [labelled?, List.find?_eq_none]
  intro f _ same
  apply other f
  rw [eq_of_beq same, String.toList_ofList]

theorem choice_append {α : Type} {label : α → String} {values : List α} {a : α} (blank : Gap gap)
    (spells : Spells (label a).toList text) (found : labelled? label values (label a).toList = some a)
    (rest : List Char) : choice label values (gap ++ (quoted text ++ rest)) = .ok (a, rest) := by
  have start : skipBlanks (gap ++ (quoted text ++ rest)) = '"' :: (text ++ '"' :: rest) := by
    simp only [quoted, List.cons_append, List.append_assoc, List.nil_append]
    exact skipBlanks_gap_cons blank (by decide) _
  simp only [choice, start, named, bind, Except.bind, string_append spells, found]

theorem optionalWord_null (blank : Gap gap) (rest : List Char) :
    optionalWord (gap ++ (['n', 'u', 'l', 'l'] ++ rest)) = .ok (none, rest) := by
  rw [List.cons_append, optionalWord, skipBlanks_gap_cons blank (by decide)]
  simp only [if_true, word_append, Except.map]

theorem optionalWord_toDigits (w : UInt64) (blank : Gap gap) (ends : Ends rest) :
    optionalWord (gap ++ (Nat.toDigits 10 w.toNat ++ rest)) = .ok (some w, rest) := by
  obtain ⟨n, read, value⟩ := finite_toDigits w ends
  obtain ⟨d, others, same⟩ := List.exists_cons_of_ne_nil (digits_toDigits w.toNat).nonempty
  have digit : d.isDigit = true := (digits_toDigits w.toNat).digits d (same ▸ List.mem_cons_self)
  have starts : startsNumber d = true := by rw [startsNumber, digit, Bool.or_true]
  have noNull : d ≠ 'n' := by
    rintro rfl
    cases digit
  rw [same, List.cons_append] at read ⊢
  rw [optionalWord, skipBlanks_gap_cons blank (isBlank_of_startsNumber starts).1]
  simp only [if_neg noNull, starts, if_true, read, bind, Except.bind, value]

/-- The value of a field is read as it is written. -/
theorem readField_append (shows : Shows d f value) (blank : Gap gap) (ends : Ends rest) :
    readField c f (gap ++ (value ++ rest)) = .ok (c.put d f, rest) := by
  cases shows with
  | target spells => rw [readField, choice_append blank spells (labelled?_target _)]; rfl
  | mode spells => rw [readField, choice_append blank spells (labelled?_mode _)]; rfl
  | unlimited unset => rw [readField, optionalWord_null blank, put, unset]; rfl
  | limited set => rw [readField, optionalWord_toDigits _ blank ends, put, set]; rfl
  | commented on =>
    have read := word_append ['r', 'u', 'e'] rest
    rw [readField, List.cons_append, flag, skipBlanks_gap_cons blank (by decide), put, on]
    simp only [read, Except.map]
  | uncommented off =>
    have read := word_append ['a', 'l', 's', 'e'] rest
    rw [readField, List.cons_append, flag, skipBlanks_gap_cons blank (by decide), put, off]
    simp only [read, Except.map]

end Fields

section Members

theorem Entry.Writes.exists_cons (writes : e.Writes member) : ∃ tail, member = '"' :: tail := by
  cases writes with
  | field _ _ _ _ => exact ⟨_, rfl⟩
  | other _ _ _ _ _ => exact ⟨_, rfl⟩

theorem readMember_field (shows : Shows d f value) {key before behind : List Char} (spells : Spells f.label.toList key)
    (hbefore : Gap before) (hbehind : Gap behind) (ends : Ends rest) :
    readMember seen c (key ++ '"' :: (before ++ ':' :: (behind ++ (value ++ rest)))) =
      (record (seen, c) (.field f d)).map (·, rest) := by
  simp only [readMember, record, bind, Except.bind, string_append spells, labelled?_field]
  by_cases again : f ∈ seen
  · simp only [if_pos again]
    rfl
  · simp only [if_neg again, colon_gap_append hbefore, readField_append shows hbehind ends, Except.map]

theorem readMember_other (isValue : IsValue value) {name key before behind : List Char} (spells : Spells name key)
    (other : ∀ f : Field, name ≠ f.label.toList) (hbefore : Gap before) (hbehind : Gap behind) (ends : Ends rest) :
    readMember seen c (key ++ '"' :: (before ++ ':' :: (behind ++ (value ++ rest)))) = .ok ((seen, c), rest) := by
  simp only [readMember, bind, Except.bind, string_append spells, labelled?_other other, colon_gap_append hbefore,
    skipValue_append hbehind isValue ends]

/-- A member is read up to its end, and recorded. -/
theorem readMember_append (writes : e.Writes member) (ends : Ends rest) (seen : List Field) (c : Settings) :
    ∃ tail, member ++ rest = '"' :: tail ∧ readMember seen c tail = (record (seen, c) e).map (·, rest) := by
  cases writes with
  | @field f d key before behind value spells hbefore hbehind shows =>
    refine ⟨key ++ '"' :: (before ++ ':' :: (behind ++ (value ++ rest))), ?_, ?_⟩
    · simp [quoted]
    · exact readMember_field shows spells hbefore hbehind ends
  | @other name key before behind value spells other hbefore hbehind isValue =>
    refine ⟨key ++ '"' :: (before ++ ':' :: (behind ++ (value ++ rest))), ?_, ?_⟩
    · simp [quoted]
    · exact readMember_other isValue spells other hbefore hbehind ends

theorem readMembers_key {tail : List Char} (start : skipBlanks text = '"' :: tail) :
    readMembers (fuel + 1) true seen c text =
      readMember seen c tail >>= fun ((seen, c), rest) => readMembers fuel false seen c rest := by
  rw [readMembers.eq_def, start]
  rfl

theorem readMembers_comma (blank : Gap gap) {tail : List Char} (start : skipBlanks text = '"' :: tail) :
    readMembers (fuel + 1) false seen c (gap ++ ',' :: text) = readMembers (fuel + 1) true seen c text := by
  have key : nextKey false (',' :: text) = .ok ('"' :: tail) := congrArg Except.ok start
  rw [readMembers_key start, readMembers.eq_def, skipBlanks_gap_cons blank (by decide)]
  show (nextKey false (',' :: text) >>= _) = _
  rw [key]
  rfl

theorem readMembers_close (blank : Gap gap) (first : Bool) (rest : List Char) :
    readMembers fuel first seen c (gap ++ '\x7d' :: rest) = .ok (c, rest) := by
  have start : skipBlanks (gap ++ '\x7d' :: rest) = '\x7d' :: rest := skipBlanks_gap_cons blank (by decide) rest
  rw [readMembers.eq_def, start]
  cases fuel <;> rfl

theorem Members.skipBlanks (members : Members entries body) (rest : List Char) :
    ∃ tail, Json.skipBlanks (body ++ rest) = '"' :: tail := by
  cases members with
  | last hbefore writes _ | more hbefore writes _ _ =>
    obtain ⟨tail, rfl⟩ := writes.exists_cons
    simp only [List.append_assoc, List.cons_append]
    exact ⟨_, skipBlanks_gap_cons hbefore (by decide) _⟩

theorem Members.length_pos (members : Members entries body) : 0 < entries.length := by
  cases members <;> exact Nat.succ_pos _

theorem Members.length_le (members : Members entries body) : entries.length ≤ body.length := by
  induction members with
  | last _ writes _ =>
    obtain ⟨tail, rfl⟩ := writes.exists_cons
    simp only [List.length_append, List.length_cons, List.length_nil]
    omega
  | more _ writes _ _ ih =>
    simp only [List.length_append, List.length_cons]
    omega

/-- A first member with more behind it. -/
theorem readMembers_first {before : List Char} (hbefore : Gap before) (writes : e.Writes member) (ends : Ends rest) :
    readMembers (fuel + 1) true seen c (before ++ (member ++ rest)) =
      record (seen, c) e >>= fun (seen, c) => readMembers fuel false seen c rest := by
  obtain ⟨tail, same, read⟩ := readMember_append writes ends seen c
  have start : Json.skipBlanks (before ++ (member ++ rest)) = '"' :: tail := by
    rw [same]
    exact skipBlanks_gap_cons hbefore (by decide) tail
  rw [readMembers_key start, read]
  cases record (seen, c) e <;> rfl

/-- Members are read up to the closing brace and recorded one after the other. -/
theorem readMembers_append (members : Members entries body) (enough : entries.length ≤ fuel) (rest : List Char) :
    readMembers fuel true seen c (body ++ '\x7d' :: rest) =
      (entries.foldlM record (seen, c)).map fun state => (state.2, rest) := by
  induction members generalizing fuel seen c with
  | @last e before member behind hbefore writes hbehind =>
    obtain ⟨fuel, rfl⟩ : ∃ k, fuel = k + 1 := ⟨fuel - 1, by rw [List.length_singleton] at enough; omega⟩
    have ends : Ends (behind ++ '\x7d' :: rest) := ends_gap_cons hbehind (ends_closing .object rest)
    have close (state : List Field × Settings) :
        readMembers fuel false state.1 state.2 (behind ++ '\x7d' :: rest) = .ok (state.2, rest) :=
      readMembers_close hbehind false rest
    rw [List.append_assoc, List.append_assoc, readMembers_first hbefore writes ends]
    simp only [close, List.foldlM_cons, List.foldlM_nil]
    cases record (seen, c) e <;> rfl
  | @more e entries before member behind body hbefore writes hbehind others ih =>
    rw [List.length_cons] at enough
    obtain ⟨fuel, rfl⟩ : ∃ k, fuel = k + 2 := ⟨fuel - 2, by have := others.length_pos; omega⟩
    have ends : Ends (behind ++ ',' :: (body ++ '\x7d' :: rest)) := ends_gap_cons hbehind (ends_comma _)
    obtain ⟨tail, start⟩ := others.skipBlanks ('\x7d' :: rest)
    have goOn (state : List Field × Settings) :
        readMembers (fuel + 1) false state.1 state.2 (behind ++ ',' :: (body ++ '\x7d' :: rest)) =
          (entries.foldlM record state).map fun state => (state.2, rest) :=
      (readMembers_comma hbehind start).trans (ih (by omega))
    rw [List.append_assoc, List.append_assoc, List.append_assoc, List.cons_append,
      readMembers_first hbefore writes ends]
    simp only [goOn, List.foldlM_cons]
    cases record (seen, c) e <;> rfl

theorem ofJson_object {front tail back : List Char} {result : Except SettingsFault Settings} (hfront : Gap front)
    (hback : Gap back) (read : readMembers tail.length true [] {} tail = result.map (·, back)) :
    ofJson (front ++ '\x7b' :: tail) = result := by
  have start : Settings.read (front ++ '\x7b' :: tail) = readMembers tail.length true [] {} tail := by
    rw [Settings.read, skipBlanks_gap_cons hfront (by decide)]
    rfl
  rw [ofJson, start, read]
  cases result with
  | error fault => rfl
  | ok c =>
    show (if (Json.skipBlanks back).isEmpty then _ else _) = _
    rw [skipBlanks_gap hback]
    rfl

/-- An object is read as its members are recorded. -/
theorem ofJson_of_layout (layout : Layout entries text) :
    ofJson text = (entries.foldlM record ([], {})).map (·.2) := by
  cases layout with
  | empty hfront hgap hback => exact ofJson_object hfront hback (readMembers_close hgap true _)
  | @members _ front body back hfront members hback =>
    have enough : entries.length ≤ (body ++ '\x7d' :: back).length := by
      have := members.length_le
      rw [List.length_append]
      omega
    apply ofJson_object hfront hback
    rw [readMembers_append members enough]
    cases entries.foldlM record ([], {}) <;> rfl

end Members

section Recording

theorem put_keep (c : Settings) (kept : List Field) (f : Field) : (c.keep kept).put c f = c.keep (f :: kept) := by
  cases f <;> simp [keep, put]

theorem nodup_fields_cons_iff (f : Field) (d : Settings) (entries : List Entry) (seen : List Field) :
    (fields (.field f d :: entries) ++ seen).Nodup ↔ (fields entries ++ f :: seen).Nodup :=
  List.perm_middle.symm.nodup_iff

/-- Fields that occur once each are kept. -/
theorem foldlM_record_eq_ok (same : ∀ f d, .field f d ∈ entries → d = c) (once : (fields entries ++ seen).Nodup) :
    entries.foldlM record (seen, c.keep seen) =
      .ok ((fields entries).reverse ++ seen, c.keep ((fields entries).reverse ++ seen)) := by
  induction entries generalizing seen with
  | nil => rfl
  | cons e entries ih =>
    have others : ∀ f d, .field f d ∈ entries → d = c := fun f d hd => same f d (List.mem_cons_of_mem _ hd)
    cases e with
    | other => exact ih others once
    | field f d =>
      obtain rfl := same f d List.mem_cons_self
      rw [nodup_fields_cons_iff] at once
      have new : f ∉ seen := (List.nodup_cons.1 (List.nodup_append.1 once).2.1).1
      have recorded : record (seen, d.keep seen) (.field f d) = .ok (f :: seen, d.keep (f :: seen)) := by
        rw [record, if_neg new, put_keep]
      have order : (fields (.field f d :: entries)).reverse ++ seen = (fields entries).reverse ++ f :: seen := by
        show (f :: fields entries).reverse ++ seen = _
        rw [List.reverse_cons, List.append_assoc, List.singleton_append]
      rw [List.foldlM_cons, recorded, order]
      exact ih others once

theorem foldlM_record_eq_error (once : seen.Nodup) (again : ¬(fields entries ++ seen).Nodup) :
    entries.foldlM record (seen, c) = .error .mismatch := by
  induction entries generalizing seen c with
  | nil => exact absurd once again
  | cons e entries ih =>
    cases e with
    | other => exact ih once again
    | field f d =>
      rw [nodup_fields_cons_iff] at again
      by_cases hf : f ∈ seen
      · rw [List.foldlM_cons, record, if_pos hf]
        rfl
      · rw [List.foldlM_cons, record, if_neg hf]
        exact ih (List.nodup_cons.2 ⟨hf, once⟩) again

end Recording

section Compact

theorem spells_of_plain {name : List Char} (plain : name.all (decide <| Plain ·) = true) : Spells name name := by
  induction name with
  | nil => exact .nil
  | cons ch name ih =>
    obtain ⟨first, others⟩ := (Bool.and_eq_true _ _).mp plain
    exact .plain (of_decide_eq_true first) (ih others)

theorem spells_label (f : Field) : Spells f.label.toList f.label.toList := by
  apply spells_of_plain
  cases f <;> decide

theorem spells_target (t : Target) : Spells t.label.toList t.label.toList := by
  apply spells_of_plain
  cases t <;> decide

theorem spells_mode (m : EscapeMode) : Spells m.label.toList m.label.toList := by
  apply spells_of_plain
  cases m <;> decide

theorem shows_fieldText (c : Settings) (f : Field) : Shows c f (c.fieldText f).toList := by
  cases f with
  | target =>
    have same : (c.fieldText .target).toList = quoted c.target.label.toList := by
      simp [fieldText, quoted]
    rw [same]
    exact .target (spells_target c.target)
  | mode =>
    have same : (c.fieldText .mode).toList = quoted c.mode.label.toList := by
      simp [fieldText, quoted]
    rw [same]
    exact .mode (spells_mode c.mode)
  | maxDepth =>
    cases limit : c.maxDepth with
    | none =>
      rw [fieldText, limit]
      exact .unlimited limit
    | some w =>
      have same : (c.fieldText .maxDepth).toList = Nat.toDigits 10 w.toNat := by
        simp only [fieldText, limit, Nat.toString_eq_repr, Nat.repr_eq_ofList_toDigits, String.toList_ofList]
      rw [same]
      exact .limited limit
  | comments =>
    cases flag : c.comments with
    | true =>
      rw [fieldText, flag]
      exact .commented flag
    | false =>
      rw [fieldText, flag]
      exact .uncommented flag

theorem writes_memberText (c : Settings) (f : Field) : Entry.Writes (.field f c) (c.memberText f).toList := by
  have same : (c.memberText f).toList = quoted f.label.toList ++ ([] ++ ':' :: ([] ++ (c.fieldText f).toList)) := by
    simp [memberText, quoted]
  rw [same]
  exact .field (spells_label f) gap_nil gap_nil (shows_fieldText c f)

theorem members_memberText (c : Settings) (f : Field) (others : List Field) :
    Members ((f :: others).map (Entry.field · c)) (String.intercalate "," ((f :: others).map c.memberText)).toList := by
  induction others generalizing f with
  | nil =>
    have member := Members.last gap_nil (writes_memberText c f) gap_nil
    rw [List.nil_append, List.append_nil] at member
    rwa [List.map_singleton, List.map_singleton, String.intercalate_singleton]
  | cons g others ih =>
    have members := Members.more gap_nil (writes_memberText c f) gap_nil (ih g)
    rw [List.map_cons, List.map_cons, List.map_cons, List.map_cons, String.intercalate_cons_cons, String.toList_append,
      String.toList_append, List.append_assoc]
    exact members

/-- Settings are written as an object of their four fields without any white space. -/
theorem layout_toJson (c : Settings) : Layout (Field.all.map (Entry.field · c)) c.toJson.toList := by
  have body := members_memberText c .target [.mode, .maxDepth, .comments]
  have layout := Layout.members gap_nil body gap_nil
  have same : c.toJson.toList =
      [] ++ '\x7b' :: ((String.intercalate "," (Field.all.map c.memberText)).toList ++ '\x7d' :: []) := by
    simp [toJson]
  rw [same]
  exact layout

end Compact

theorem keep_reverse (c : Settings) (kept : List Field) : c.keep kept.reverse = c.keep kept := by
  simp [keep]

/-- Settings are read back from every text that holds some of their fields once each, in whichever order and spelling
and between whatever other members: in these fields they are as they were, in the others they are the defaults. So they
are from their own text, which holds all fields; but no text with a field twice is read. -/
theorem ofJson_any_layout :
    (∀ (c : Settings) (entries : List Entry) (text : List Char), Layout entries text →
      (∀ f d, .field f d ∈ entries → d = c) → (fields entries).Nodup → ofJson text = .ok (c.keep (fields entries))) ∧
    (∀ c : Settings, ofJson c.toJson.toList = .ok c) ∧
    ∀ (entries : List Entry) (text : List Char), Layout entries text →
      ¬(fields entries).Nodup → ofJson text = .error .mismatch := by
  have reads (c : Settings) (entries : List Entry) (text : List Char) (layout : Layout entries text)
      (same : ∀ f d, .field f d ∈ entries → d = c) (once : (fields entries).Nodup) :
      ofJson text = .ok (c.keep (fields entries)) := by
    have recorded : entries.foldlM record ([], c.keep []) = _ := foldlM_record_eq_ok same (by rwa [List.append_nil])
    have default : c.keep [] = {} := rfl
    rw [List.append_nil, keep_reverse, default] at recorded
    rw [ofJson_of_layout layout, recorded]
    rfl
  refine ⟨reads, fun c => ?_, fun entries text layout again => ?_⟩
  · have all : fields (Field.all.map (Entry.field · c)) = Field.all := rfl
    have same : ∀ f d, .field f d ∈ Field.all.map (Entry.field · c) → d = c := by
      intro f d hd
      obtain ⟨g, -, joined⟩ := List.mem_map.1 hd
      cases joined
      rfl
    have whole : c.keep Field.all = c := rfl
    rw [reads c _ _ (layout_toJson c) same (by rw [all]; decide), all, whole]
  · have failed : entries.foldlM record ([], {}) = .error .mismatch :=
      foldlM_record_eq_error List.nodup_nil (by rwa [List.append_nil])
    rw [ofJson_of_layout layout, failed]
    rfl

/-- Two fields and between them a member of another name, with an escape in its key and a list for its value. -/
def mixedText : String :=
  " \x7b \"max_depth\" : 18446744073709551615,\"x\\u0041\":[\x7b\"k\":-1.5e3\x7d, \"\\ud800\"] , \"target\":\"c\"\x7d\n"

/-- The settings whose fields `mixedText` holds. -/
def mixedSettings : Settings := { target := .c, mode := .skip, maxDepth := some 18446744073709551615 }

def mixedEntries : List Entry := [.field .maxDepth mixedSettings, .other, .field .target mixedSettings]

theorem layout_mixedText : Layout mixedEntries mixedText.toList := by
  have space : Gap [' '] := List.forall_mem_singleton.2 rfl
  have newline : Gap ['\n'] := List.forall_mem_singleton.2 rfl
  have digit (c : Char) (h : c.isDigit = true) : Digits [c] := ⟨List.cons_ne_nil _ _, List.forall_mem_singleton.2 h⟩
  have number : Number.Writes ⟨true, ['1'], ['5'], some (false, ['3'])⟩ ['-', '1', '.', '5', 'e', '3'] :=
    ⟨digit '1' rfl, fun _ => rfl, ['.', '5'], ['e', '3'], .some (digit '5' rfl),
      .unsigned (.inl rfl) (digit '3' rfl), rfl⟩
  have key : Content ['k'] := .plain (by decide) .nil
  have object : Derives (.items .object) _ := .last (.object gap_nil key gap_nil gap_nil) (.number number) gap_nil
  have half : Hex ['d', '8', '0', '0'] 0xD800 :=
    .mk (w := 13) (x := 8) (y := 0) (z := 0) rfl rfl rfl rfl
  have second : Derives (.items .list) _ := .last (.list space) (.string (.code half .nil)) gap_nil
  have list : IsValue _ := .bracket (.more (.list gap_nil) (.bracket object) gap_nil second)
  have code : Hex ['0', '0', '4', '1'] 'A'.toNat :=
    .mk (w := 0) (x := 0) (y := 4) (z := 1) rfl rfl rfl rfl
  have name : Spells ['x', 'A'] _ := .plain (by decide) (.code code .nil)
  have others : ∀ f : Field, ['x', 'A'] ≠ f.label.toList := by
    intro f
    cases f <;> decide
  have depth : Entry.Writes (.field .maxDepth mixedSettings) _ :=
    .field (spells_label .maxDepth) space space (shows_fieldText mixedSettings .maxDepth)
  have other : Entry.Writes .other _ := .other name others gap_nil gap_nil list
  have target : Entry.Writes (.field .target mixedSettings) _ :=
    .field (spells_label .target) gap_nil gap_nil (shows_fieldText mixedSettings .target)
  exact .members space (.more space depth gap_nil (.more gap_nil other space (.last space target gap_nil))) newline

/-- One field twice with the same value. -/
def doubledText : String := "\x7b\"target\":\"c\",\"target\":\"c\"\x7d"

theorem layout_doubledText :
    Layout [.field .target mixedSettings, .field .target mixedSettings] doubledText.toList := by
  have target : Entry.Writes (.field .target mixedSettings) _ :=
    .field (spells_label .target) gap_nil gap_nil (shows_fieldText mixedSettings .target)
  exact .members gap_nil (.more gap_nil target gap_nil (.last gap_nil target gap_nil)) gap_nil

theorem ofJson_any_layout_mixed :
    ofJson mixedText.toList = .ok { target := .c, maxDepth := some 18446744073709551615 } ∧
      ofJson doubledText.toList = .error .mismatch := by
  have same : ∀ f d, .field f d ∈ mixedEntries → d = mixedSettings := by
    intro f d hd
    simp only [mixedEntries, List.mem_cons, Entry.field.injEq, reduceCtorEq, List.not_mem_nil, or_false, false_or] at hd
    rcases hd with ⟨-, rfl⟩ | ⟨-, rfl⟩ <;> rfl
  constructor
  · exact ofJson_any_layout.1 mixedSettings mixedEntries _ layout_mixedText same (by decide)
  · exact ofJson_any_layout.2.2 _ _ layout_doubledText (by decide)

end Descent.Settings
