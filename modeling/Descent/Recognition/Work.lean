import Descent.Recognition.State

/-!
# Work

Under a finite limit every state leads to finitely many others. Each expansion either consumes input
or makes the weight of the pending patterns smaller: a step weighs the more the less deep it stands,
and more than the longest replacement one level below it. The number of states below a state is its
work.
-/
namespace Descent.Recognition

def longest (bodies : List (List Step)) : Nat := bodies.foldr (fun body n => max body.length n) 0

theorem length_le_longest {bodies : List (List Step)} {body : List Step} (h : body ∈ bodies) :
    body.length ≤ longest bodies := by
  induction bodies with
  | nil => simp at h
  | cons first rest ih =>
    simp only [longest, List.foldr_cons]
    rcases List.mem_cons.1 h with rfl | h
    · exact Nat.le_max_left _ _
    · exact Nat.le_trans (ih h) (Nat.le_max_right _ _)

def width (E : Replacements) : Nat :=
  longest (Grammar.symbols.flatMap fun s => (E s).getD [])

theorem length_le_width {E : Replacements} {s : Symbol} {bodies : List (List Step)}
    {body : List Step} (hE : E s = some bodies) (h : body ∈ bodies) : body.length ≤ width E := by
  apply length_le_longest
  simp only [List.mem_flatMap]
  exact ⟨s, Grammar.mem_symbols s, by simpa [hE] using h⟩

/-- The weight of a step that may still be followed by `room` levels below it. -/
def stepWeight (width : Nat) : Nat → Nat
  | 0 => 0
  | room + 1 => width * stepWeight width room + 2

/-- The weight of a pattern and of the enclosing ones; each of these stands one level less deep. -/
def patternWeight (width limit : Nat) : List (List Step) → Nat → Nat
  | [], _ => 0
  | pattern :: parents, depth =>
    pattern.length * stepWeight width (limit + 1 - depth) + 1 +
      patternWeight width limit parents (depth - 1)

def State.weight (width limit : Nat) (s : State) : Nat :=
  patternWeight width limit (s.continuation.pattern :: s.continuation.parents) s.depth

/-- The states that a state within the limit leads to. -/
def State.next (E : Replacements) (limit : Nat) (s : State) : List State :=
  if s.exceeds (some limit) then []
  else
    match s.expand E with
    | .accepted => []
    | .states next => next

/-- A call that is reached stood at the front of the pattern, or input was consumed on the way. -/
theorem advance_call {pattern rest : List Step} {input input' : List UInt8} {depth depth' : Nat}
    {callee : Symbol} (h : advance pattern input depth = .call callee rest input' depth') :
    (input' = input ∧ depth' = depth ∧ pattern = .call callee :: rest) ∨
      input'.length < input.length := by
  fun_induction advance pattern input depth with
  | case1 => simp at h
  | case2 => simp_all
  | case3 => simp at h
  | case4 rest input depth c ih =>
    right
    rcases ih h with ⟨rfl, -, -⟩ | shorter
    · simp
    · simp only [List.length_cons]
      omega
  | case5 => simp at h

/-- A pattern that is used up was empty, or input was consumed on the way. -/
theorem advance_finished {pattern : List Step} {input input' : List UInt8} {depth depth' : Nat}
    (h : advance pattern input depth = .finished input' depth') :
    (input' = input ∧ depth' = depth ∧ pattern = []) ∨ input'.length < input.length := by
  fun_induction advance pattern input depth with
  | case1 => simp_all
  | case2 => simp at h
  | case3 => simp at h
  | case4 rest input depth c ih =>
    right
    rcases ih h with ⟨rfl, -, -⟩ | shorter
    · simp
    · simp only [List.length_cons]
      omega
  | case5 => simp at h

theorem mem_enter {E : Replacements} {s : Symbol} {input : List UInt8} {c : Continuation Step}
    {depth : Nat} {choices : List (Symbol × Nat)} {t : State}
    (h : t ∈ enter E s input c depth choices) :
    ∃ bodies i body, E s = some bodies ∧ bodies[i]? = some body ∧
      t = ⟨input, c.push body, depth + 1, (s, i) :: choices⟩ := by
  unfold enter at h
  split at h
  · simp at h
  · rename_i bodies hE
    obtain ⟨i, hi, rfl⟩ := List.mem_mapIdx.1 h
    exact ⟨bodies, i, bodies[i], hE, by simp [hi], rfl⟩

/-- Entering a rule within the limit replaces a call by something lighter. -/
theorem weight_enter_lt (width limit : Nat) (body rest : List Step) (callee : Symbol)
    (parents : List (List Step)) (depth : Nat) (hb : body.length ≤ width) (hd : depth ≤ limit) :
    patternWeight width limit (body :: rest :: parents) (depth + 1) <
      patternWeight width limit ((.call callee :: rest) :: parents) depth := by
  have room : limit + 1 - depth = (limit + 1 - (depth + 1)) + 1 := by omega
  have heavy : body.length * stepWeight width (limit + 1 - (depth + 1)) ≤
      width * stepWeight width (limit + 1 - (depth + 1)) := Nat.mul_le_mul_right _ hb
  have unfold_step : stepWeight width (limit + 1 - depth) =
      width * stepWeight width (limit + 1 - (depth + 1)) + 2 := by
    rw [room, stepWeight]
  simp only [patternWeight, List.length_cons, Nat.add_sub_cancel, Nat.succ_mul]
  omega

/-- Every state that follows has less input, or as much and less weight. -/
theorem lt_of_mem_next {E : Replacements} {limit : Nat} {s t : State} (h : t ∈ s.next E limit) :
    t.input.length < s.input.length ∨
      t.input.length = s.input.length ∧ t.weight (width E) limit < s.weight (width E) limit := by
  unfold State.next at h
  split at h
  · simp at h
  rename_i within
  have hd : s.depth ≤ limit := by
    simpa [State.exceeds] using within
  split at h
  · simp at h
  rename_i next hexpand
  unfold State.expand at hexpand
  split at hexpand
  · simp only [Expansion.states.injEq] at hexpand
    simp [← hexpand] at h
  · rename_i callee rest input depth hadv
    simp only [Expansion.states.injEq] at hexpand
    rw [← hexpand] at h
    obtain ⟨bodies, i, body, hE, hbody, rfl⟩ := mem_enter h
    rcases advance_call hadv with ⟨rfl, rfl, hp⟩ | shorter
    · right
      refine ⟨rfl, ?_⟩
      simp only [State.weight, Continuation.push, hp]
      exact weight_enter_lt _ _ _ _ _ _ _
        (length_le_width hE (List.mem_of_getElem? hbody)) hd
    · exact .inl shorter
  · rename_i input depth hadv
    split at hexpand
    · rename_i parent hparent
      simp only [Expansion.states.injEq] at hexpand
      simp only [← hexpand, List.mem_singleton] at h
      subst h
      rcases advance_finished hadv with ⟨rfl, rfl, hp⟩ | shorter
      · right
        refine ⟨rfl, ?_⟩
        unfold Continuation.parent? at hparent
        split at hparent
        · simp at hparent
        · rename_i pattern parents hparents
          simp only [Option.some.injEq] at hparent
          subst hparent
          simp only [State.weight, hp, hparents]
          conv => rhs; rw [patternWeight]
          simp
      · exact .inl shorter
    · split at hexpand
      · simp at hexpand
      · simp only [Expansion.states.injEq] at hexpand
        simp [← hexpand] at h

/-- The number of states that the search below a state can meet, the state included. -/
def State.work (E : Replacements) (limit : Nat) (s : State) : Nat :=
  1 + (s.next E limit).attach.foldr (fun t work => t.1.work E limit + work) 0
termination_by (s.input.length, s.weight (width E) limit)
decreasing_by
  rcases lt_of_mem_next t.2 with h | ⟨h, hw⟩
  · exact Prod.Lex.left _ _ h
  · rw [h]
    exact Prod.Lex.right _ hw

def agendaWork (E : Replacements) (limit : Nat) (agenda : List State) : Nat :=
  agenda.foldr (fun s work => s.work E limit + work) 0

theorem agendaWork_append (E : Replacements) (limit : Nat) (front back : List State) :
    agendaWork E limit (front ++ back) = agendaWork E limit front + agendaWork E limit back := by
  induction front with
  | nil => simp [agendaWork]
  | cons s front ih =>
    simp only [agendaWork, List.cons_append, List.foldr_cons] at ih ⊢
    omega

theorem State.work_eq (E : Replacements) (limit : Nat) (s : State) :
    s.work E limit = 1 + agendaWork E limit (s.next E limit) := by
  have detached := List.foldr_attach (l := s.next E limit)
    (f := fun t work => State.work E limit t + work) (b := 0)
  rw [State.work, detached, agendaWork]

/-- A turn of the search uses up work. -/
theorem agendaWork_turn_lt {E : Replacements} {limit : Nat} {s : State} {rest agenda : List State}
    (h : turn E (some limit) s rest = .ok agenda) :
    agendaWork E limit agenda < agendaWork E limit (s :: rest) := by
  unfold turn at h
  split at h
  · simp at h
  rename_i within
  split at h
  · simp at h
  rename_i next hexpand
  simp only [Except.ok.injEq] at h
  have hnext : s.next E limit = next := by
    simp only [State.next, within, hexpand]
    simp
  have first : agendaWork E limit (s :: rest) = s.work E limit + agendaWork E limit rest := rfl
  rw [← h, agendaWork_append, first, State.work_eq, hnext]
  omega

end Descent.Recognition
