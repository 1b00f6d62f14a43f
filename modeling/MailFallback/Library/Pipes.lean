import Mathlib.Algebra.BigOperators.Group.Finset.Basic
import Mathlib.Data.Fintype.Basic
import Mathlib.Algebra.BigOperators.Group.Finset.Piecewise

/-! # A process that writes to bounded pipes

A write waits while its pipe is full, unless the read end is shut, and a pipe is at its end when
it is empty and the process is gone. -/

namespace Pipes

variable {ι α : Type*} [DecidableEq ι]

structure State (ι α : Type*) where
  /-- What the process has yet to write, in order. -/
  writes : List (ι × α)
  /-- What it wrote so far. -/
  sent : List (ι × α)
  held : ι → List α
  /-- What came out at the other ends. -/
  received : ι → List α
  shut : ι → Bool
  gone : Bool

def start (script : List (ι × α)) : State ι α :=
  ⟨script, [], fun _ => [], fun _ => [], fun _ => false, false⟩

/-- What was written to one of the pipes. -/
def along (i : ι) (l : List (ι × α)) : List α := (l.filter fun w => w.1 = i).map Prod.snd

variable (capacity : ι → ℕ)

/-- The process writes once more. -/
def write (s : State ι α) : Option (State ι α) :=
  if s.gone then none else
  match s.writes with
  | [] => none
  | (i, a) :: rest =>
      if s.shut i then some { s with writes := rest, sent := s.sent ++ [(i, a)] }
      else if (s.held i).length < capacity i then
        some { s with writes := rest, sent := s.sent ++ [(i, a)],
                      held := Function.update s.held i (s.held i ++ [a]) }
      else none

/-- The process ends by itself. -/
def exit (s : State ι α) : Option (State ι α) :=
  if s.gone = false ∧ s.writes.isEmpty then some { s with gone := true } else none

/-- The process is killed. -/
def kill (s : State ι α) : Option (State ι α) :=
  if s.gone then none else some { s with gone := true }

/-- One piece is read from a pipe. -/
def read (i : ι) (s : State ι α) : Option (α × State ι α) :=
  if s.shut i then none else
  match s.held i with
  | [] => none
  | a :: rest =>
      some (a, { s with held := Function.update s.held i rest
                        received := Function.update s.received i (s.received i ++ [a]) })

/-- A reader finds the end of a pipe. -/
def atEnd (i : ι) (s : State ι α) : Bool := s.gone && (s.held i).isEmpty

def close (i : ι) (s : State ι α) : State ι α := { s with shut := Function.update s.shut i true }

variable {capacity} {s t : State ι α} {i j : ι} {a : α}

theorem write_eq (h : write capacity s = some t) :
    ∃ i a, s.gone = false ∧ s.writes = (i, a) :: t.writes ∧ t.sent = s.sent ++ [(i, a)] ∧
      t.received = s.received ∧ t.shut = s.shut ∧ t.gone = false ∧
      t.held = if s.shut i then s.held else Function.update s.held i (s.held i ++ [a]) := by
  unfold write at h
  split at h
  · cases h
  · rename_i hgone
    have hgone' : s.gone = false := by simpa using hgone
    split at h
    · cases h
    · rename_i i a rest hwrites
      refine ⟨i, a, hgone', ?_⟩
      split at h
      · rename_i hshut
        cases h
        simp [hwrites, hshut, hgone']
      · rename_i hshut
        split at h
        · cases h
          simp [hwrites, hshut, hgone']
        · cases h

omit [DecidableEq ι] in
theorem exit_eq (h : exit s = some t) :
    s.gone = false ∧ s.writes = [] ∧ t = { s with gone := true } := by
  unfold exit at h
  split at h
  · rename_i hcond
    exact ⟨hcond.1, List.isEmpty_iff.mp hcond.2, (Option.some.inj h).symm⟩
  · cases h

omit [DecidableEq ι] in
theorem kill_eq (h : kill s = some t) : s.gone = false ∧ t = { s with gone := true } := by
  unfold kill at h
  split at h
  · cases h
  · rename_i hgone
    exact ⟨by simpa using hgone, (Option.some.inj h).symm⟩

theorem read_eq (h : read i s = some (a, t)) :
    s.shut i = false ∧ ∃ rest, s.held i = a :: rest ∧
      t = { s with held := Function.update s.held i rest
                   received := Function.update s.received i (s.received i ++ [a]) } := by
  unfold read at h
  split at h
  · cases h
  · rename_i hshut
    split at h
    · cases h
    · rename_i b rest hheld
      obtain ⟨rfl, rfl⟩ := Prod.mk.inj (Option.some.inj h)
      exact ⟨by simpa using hshut, rest, hheld, rfl⟩

/-! ## Nothing is lost and nothing is reordered -/

/-- A pipe that is still read has given and holds what was written to it. -/
def Conserved (script : List (ι × α)) (s : State ι α) : Prop :=
  (∀ i, s.received i ++ s.held i <+: along i s.sent) ∧
  (∀ i, s.shut i = false → s.received i ++ s.held i = along i s.sent) ∧
  s.sent ++ s.writes = script

variable {script : List (ι × α)}

theorem along_append (i : ι) (l l' : List (ι × α)) : along i (l ++ l') = along i l ++ along i l' := by
  simp [along]

theorem along_singleton (i j : ι) (a : α) : along i [(j, a)] = if j = i then [a] else [] := by
  by_cases h : j = i <;> simp [along, h]

theorem conserved_start (script : List (ι × α)) : Conserved script (start script) := by
  simp [Conserved, start, along]

theorem conserved_write (hs : Conserved script s) (h : write capacity s = some t) :
    Conserved script t := by
  obtain ⟨i, a, -, hwrites, hsent, hreceived, hshut, -, hheld⟩ := write_eq h
  obtain ⟨hpre, heq, hscript⟩ := hs
  have hpiece : ∀ k, along k t.sent = along k s.sent ++ if i = k then [a] else [] := by
    intro k
    rw [hsent, along_append, along_singleton]
  have hstep : ∀ k, s.shut k = false → t.received k ++ t.held k = along k t.sent := by
    intro k hk
    rw [hpiece, hreceived, hheld, ← heq k hk]
    by_cases hik : i = k
    · subst hik
      simp [hk]
    · have hne : k ≠ i := fun h => hik h.symm
      by_cases hshut' : s.shut i = true <;> simp [hik, hshut', Function.update_of_ne hne]
  refine ⟨?_, ?_, ?_⟩
  · intro k
    cases hk : s.shut k with
    | false => rw [hstep k hk]
    | true =>
        have hheldk : t.held k = s.held k := by
          rw [hheld]
          by_cases hik : i = k
          · subst hik
            rw [if_pos hk]
          · split
            · rfl
            · exact Function.update_of_ne (fun h => hik h.symm) _ _
        rw [hpiece, hreceived, hheldk]
        exact (hpre k).trans (List.prefix_append ..)
  · intro k hk
    exact hstep k (by rwa [hshut] at hk)
  · rw [hsent, ← hscript, hwrites]
    simp

theorem conserved_gone (hs : Conserved script s) : Conserved script { s with gone := true } := hs

theorem conserved_read (hs : Conserved script s) (h : read i s = some (a, t)) :
    Conserved script t := by
  obtain ⟨hshut, rest, hheld, rfl⟩ := read_eq h
  obtain ⟨hpre, heq, hscript⟩ := hs
  have hsame : ∀ k, Function.update s.received i (s.received i ++ [a]) k ++
      Function.update s.held i rest k = s.received k ++ s.held k := by
    intro k
    by_cases hk : k = i
    · subst hk
      simp [hheld]
    · simp [Function.update_of_ne hk]
  refine ⟨fun k => ?_, fun k hk => ?_, hscript⟩
  · rw [hsame]
    exact hpre k
  · rw [hsame]
    exact heq k hk

theorem conserved_close (hs : Conserved script s) : Conserved script (close i s) := by
  refine ⟨hs.1, fun k hk => hs.2.1 k ?_, hs.2.2⟩
  by_cases hki : k = i
  · subst hki
    simp [close] at hk
  · simpa [close, Function.update_of_ne hki] using hk

/-- Who reads a pipe to its end has all of it. -/
theorem received_of_atEnd (hs : Conserved script s) (hshut : s.shut i = false)
    (hend : atEnd i s = true) : s.received i = along i s.sent := by
  have hheld : s.held i = [] := by
    simpa using (Bool.and_eq_true_iff.mp hend).2
  have h := hs.2.1 i hshut
  rwa [hheld, List.append_nil] at h

/-! ## Somebody can always go on -/

/-- A live process is held up by a full pipe only. -/
theorem process_or_full (hcap : ∀ i, 0 < capacity i) (hgone : s.gone = false) :
    (exit s).isSome = true ∨ (write capacity s).isSome = true ∨
      ∃ i, s.shut i = false ∧ s.held i ≠ [] := by
  cases hwrites : s.writes with
  | nil => exact .inl (by simp [exit, hgone, hwrites])
  | cons w rest =>
      obtain ⟨i, a⟩ := w
      cases hshut : s.shut i with
      | true => exact .inr (.inl (by simp [write, hgone, hwrites, hshut]))
      | false =>
          by_cases hroom : (s.held i).length < capacity i
          · exact .inr (.inl (by simp [write, hgone, hwrites, hshut, hroom]))
          · refine .inr (.inr ⟨i, hshut, fun hnil => hroom ?_⟩)
            rw [hnil]
            exact hcap i

/-- A pipe that is open can be read, is at its end, or waits for the process. -/
theorem read_or_atEnd (hshut : s.shut i = false) (h : s.gone = true ∨ s.held i ≠ []) :
    (read i s).isSome = true ∨ atEnd i s = true := by
  cases hheld : s.held i with
  | nil =>
      rw [hheld] at h
      exact .inr (by simpa [atEnd, hheld] using h)
  | cons a rest => exact .inl (by simp [read, hshut, hheld])

/-! ## It does not go on for ever -/

variable [Fintype ι]

/-- A write counts twice, since what it leaves is read. -/
def load (s : State ι α) : ℕ :=
  2 * s.writes.length + ∑ i, (s.held i).length + if s.gone then 0 else 1

theorem sum_update (f : ι → List α) (i : ι) (l : List α) :
    (∑ j, (Function.update f i l j).length) + (f i).length = (∑ j, (f j).length) + l.length := by
  have hfirst := Finset.add_sum_erase Finset.univ (fun j => (Function.update f i l j).length)
    (Finset.mem_univ i)
  have hsecond := Finset.add_sum_erase Finset.univ (fun j => (f j).length) (Finset.mem_univ i)
  have hrest : ∑ j ∈ Finset.univ.erase i, (Function.update f i l j).length =
      ∑ j ∈ Finset.univ.erase i, (f j).length := by
    refine Finset.sum_congr rfl fun j hj => ?_
    rw [Function.update_of_ne (Finset.ne_of_mem_erase hj)]
  simp only [Function.update_self] at hfirst
  omega

theorem load_write (h : write capacity s = some t) : load t < load s := by
  obtain ⟨i, a, hgone, hwrites, -, -, -, hgone', hheld⟩ := write_eq h
  have hlen : s.writes.length = t.writes.length + 1 := by
    rw [hwrites]
    rfl
  have hsum := sum_update s.held i (s.held i ++ [a])
  rw [List.length_append, List.length_singleton] at hsum
  unfold load
  rw [hgone, hgone', hheld]
  split <;> omega

omit [DecidableEq ι] in
theorem load_gone (h : s.gone = false) : load { s with gone := true } < load s := by
  simp [load, h]

theorem load_read (h : read i s = some (a, t)) : load t < load s := by
  obtain ⟨-, rest, hheld, rfl⟩ := read_eq h
  have hsum := sum_update s.held i rest
  rw [hheld, List.length_cons] at hsum
  simp only [load]
  omega

theorem load_close (i : ι) (s : State ι α) : load (close i s) = load s := rfl

omit [DecidableEq ι] in
theorem load_start (script : List (ι × α)) : load (start script) = 2 * script.length + 1 := by
  simp [load, start]

end Pipes
