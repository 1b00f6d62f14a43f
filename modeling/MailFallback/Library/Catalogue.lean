import Mathlib.Data.List.Nodup
import Mathlib.Data.Set.Lattice

/-! # Catalogues of copies

Things with names lie about in places, several copies of one thing among them, and each copy
carries labels. A catalogue has one entry a name. Reconciling it with the copies that were
found enters what is new, points every entry at a copy, collects the labels and marks what is
gone. -/

namespace Catalogue

variable {P N A : Type*}

/-- A copy that was found. -/
structure Copy (P N A : Type*) where
  place : P
  name : N
  labels : Set A

@[ext] structure Entry (P A : Type*) where
  place : P
  live : Bool
  labels : Set A

section

variable (copies : List (Copy P N A))

/-- The labels of the copies that are not in the place. -/
def labelsBeside (name : N) (place : P) : Set A :=
  {a | ∃ c ∈ copies, c.name = name ∧ c.place ≠ place ∧ a ∈ c.labels}

/-- The labels of all copies. -/
def labelsOf (name : N) : Set A := {a | ∃ c ∈ copies, c.name = name ∧ a ∈ c.labels}

variable [DecidableEq N]

/-- The copy that was found first. -/
def first (name : N) : Option (Copy P N A) := copies.find? fun c => c.name = name

variable [DecidableEq P]

/-- Something was found in the place. -/
def Found (place : P) : Prop := ∃ c ∈ copies, c.place = place

instance (place : P) : Decidable (Found copies place) :=
  inferInstanceAs (Decidable (∃ c ∈ copies, c.place = place))

/-- The entry of one name after the catalogue was reconciled with the copies. -/
def reconcileEntry (name : N) : Option (Entry P A) → Option (Entry P A)
  | none => (first copies name).map fun c => ⟨c.place, true, labelsOf copies name⟩
  | some e =>
      match first copies name with
      | none => some { e with live := false }
      | some c =>
          some ⟨if Found copies e.place then e.place else c.place, true,
            e.labels ∪ labelsBeside copies name e.place⟩

def reconcile (catalogue : N → Option (Entry P A)) (name : N) : Option (Entry P A) :=
  reconcileEntry copies name (catalogue name)

/-- No two entries share a place, and what lies in an entry's place is a copy of it. -/
structure Sound (catalogue : N → Option (Entry P A)) : Prop where
  apart : ∀ {name name' e e'}, catalogue name = some e → catalogue name' = some e' →
    e.place = e'.place → name = name'
  named : ∀ {name e c}, catalogue name = some e → c ∈ copies → c.place = e.place → c.name = name

end

variable {copies : List (Copy P N A)} {catalogue : N → Option (Entry P A)} {name : N}
  {e m : Entry P A} {c : Copy P N A}

/-! ## The copies -/

theorem labelsBeside_subset {place : P} : labelsBeside copies name place ⊆ labelsOf copies name := by
  intro a ha
  obtain ⟨c, hc, hname, -, hlabel⟩ := ha
  exact ⟨c, hc, hname, hlabel⟩

variable [DecidableEq N]

theorem first_some (h : first copies name = some c) : c ∈ copies ∧ c.name = name := by
  refine ⟨List.mem_of_find?_eq_some h, ?_⟩
  simpa using List.find?_some h

theorem first_isSome : (first copies name).isSome = true ↔ ∃ c ∈ copies, c.name = name := by
  simp [first, List.find?_isSome]

theorem first_none (h : first copies name = none) (hc : c ∈ copies) : c.name ≠ name := by
  simpa using List.find?_eq_none.mp h c hc

theorem labelsBeside_of_none {place : P} (h : first copies name = none) :
    labelsBeside copies name place = ∅ := by
  refine Set.eq_empty_of_forall_notMem fun a ha => ?_
  obtain ⟨c, hc, hname, -⟩ := ha
  exact first_none h hc hname

variable [DecidableEq P]

omit [DecidableEq N] [DecidableEq P] in
theorem labelsBeside_of_not_found {place : P} (h : ¬ Found copies place) :
    labelsBeside copies name place = labelsOf copies name := by
  refine Set.Subset.antisymm labelsBeside_subset fun a ha => ?_
  obtain ⟨c, hc, hname, hlabel⟩ := ha
  exact ⟨c, hc, hname, fun hplace => h ⟨c, hc, hplace⟩, hlabel⟩

omit [DecidableEq N] in
/-- Where no place holds two copies, one copy and the ones beside it are all of them. -/
theorem labels_union_beside (hdistinct : (copies.map Copy.place).Nodup) (hc : c ∈ copies)
    (hname : c.name = name) : c.labels ∪ labelsBeside copies name c.place = labelsOf copies name := by
  refine Set.Subset.antisymm ?_ fun a ha => ?_
  · rintro a (ha | ha)
    · exact ⟨c, hc, hname, ha⟩
    · exact labelsBeside_subset ha
  · obtain ⟨c', hc', hname', hlabel⟩ := ha
    by_cases hplace : c'.place = c.place
    · have hsame := List.inj_on_of_nodup_map hdistinct hc' hc hplace
      exact .inl (hsame ▸ hlabel)
    · exact .inr ⟨c', hc', hname', hplace, hlabel⟩

/-! ## What a reconciled catalogue says -/

theorem reconcile_isSome :
    (reconcile copies catalogue name).isSome = true ↔
      (catalogue name).isSome = true ∨ ∃ c ∈ copies, c.name = name := by
  unfold reconcile
  cases hentry : catalogue name with
  | none => simp [reconcileEntry, first_isSome]
  | some e => cases hfirst : first copies name <;> simp [reconcileEntry, hfirst]

/-- The live entries are those of the things that were found. -/
theorem reconcile_live (h : reconcile copies catalogue name = some e) :
    e.live = true ↔ ∃ c ∈ copies, c.name = name := by
  rw [← first_isSome]
  unfold reconcile at h
  cases hentry : catalogue name with
  | none =>
      rw [hentry] at h
      obtain ⟨c, hc, rfl⟩ := Option.map_eq_some_iff.mp h
      simp [hc]
  | some e =>
      cases hfirst : first copies name with
      | none =>
          simp only [reconcileEntry, hentry, hfirst, Option.some.injEq] at h
          simp [← h]
      | some c =>
          simp only [reconcileEntry, hentry, hfirst, Option.some.injEq] at h
          simp [← h]

/-- A live entry points at a copy. -/
theorem reconcile_place (hsound : Sound copies catalogue)
    (h : reconcile copies catalogue name = some e) (hlive : e.live = true) :
    ∃ c ∈ copies, c.place = e.place ∧ c.name = name := by
  unfold reconcile at h
  cases hentry : catalogue name with
  | none =>
      rw [hentry] at h
      obtain ⟨c, hc, rfl⟩ := Option.map_eq_some_iff.mp h
      exact ⟨c, (first_some hc).1, rfl, (first_some hc).2⟩
  | some e₀ =>
      cases hfirst : first copies name with
      | none =>
          simp only [reconcileEntry, hentry, hfirst, Option.some.injEq] at h
          simp [← h] at hlive
      | some c =>
          simp only [reconcileEntry, hentry, hfirst, Option.some.injEq] at h
          subst h
          by_cases hfound : Found copies e₀.place
          · obtain ⟨c', hc', hplace⟩ := hfound
            have hthere : Found copies e₀.place := ⟨c', hc', hplace⟩
            exact ⟨c', hc', by simp [hthere, hplace], hsound.named hentry hc' hplace⟩
          · exact ⟨c, (first_some hfirst).1, by simp [hfound], (first_some hfirst).2⟩

/-- An entry whose place still holds a copy keeps it. -/
theorem reconcile_keeps (hentry : catalogue name = some e) (hfound : Found copies e.place)
    (h : reconcile copies catalogue name = some m) : m.place = e.place := by
  unfold reconcile at h
  cases hfirst : first copies name <;>
    simp only [reconcileEntry, hentry, hfirst, hfound, if_true, Option.some.injEq] at h <;>
    simp [← h]

theorem reconcile_apart (hsound : Sound copies catalogue)
    (hdistinct : (copies.map Copy.place).Nodup) {name' : N} {e' : Entry P A}
    (h : reconcile copies catalogue name = some e) (hlive : e.live = true)
    (h' : reconcile copies catalogue name' = some e') (hlive' : e'.live = true)
    (hplace : e.place = e'.place) : name = name' := by
  obtain ⟨c, hc, hcplace, rfl⟩ := reconcile_place hsound h hlive
  obtain ⟨c', hc', hcplace', rfl⟩ := reconcile_place hsound h' hlive'
  have hsame := List.inj_on_of_nodup_map hdistinct hc hc'
    (hcplace.trans (hplace.trans hcplace'.symm))
  rw [hsame]

/-! ## Catalogues on the way -/

/-- An entry that is on its way from what it was to what the copies make of it. -/
inductive Underway (copies : List (Copy P N A)) (name : N) :
    Option (Entry P A) → Option (Entry P A) → Prop where
  | absent : Underway copies name none none
  | arrived (c : Copy P N A) (m : Entry P A) : first copies name = some c →
      m.place = c.place → c.labels ⊆ m.labels → m.labels ⊆ labelsOf copies name →
      Underway copies name none (some m)
  | kept (e m : Entry P A) : m.place = e.place → e.labels ⊆ m.labels →
      m.labels ⊆ e.labels ∪ labelsBeside copies name e.place →
      Underway copies name (some e) (some m)
  | moved (e : Entry P A) (c : Copy P N A) (m : Entry P A) : ¬ Found copies e.place →
      first copies name = some c → m.place = c.place →
      m.labels = e.labels ∪ labelsOf copies name → Underway copies name (some e) (some m)

omit [DecidableEq P] in
theorem Underway.refl (entry : Option (Entry P A)) : Underway copies name entry entry := by
  cases entry with
  | none => exact .absent
  | some e => exact .kept _ _ rfl (le_refl _) Set.subset_union_left

/-- Wherever an entry is on its way, it ends where it would have ended. -/
theorem Underway.reconcileEntry_eq (hdistinct : (copies.map Copy.place).Nodup)
    {entry later : Option (Entry P A)} (h : Underway copies name entry later) :
    reconcileEntry copies name later = reconcileEntry copies name entry := by
  cases h with
  | absent => rfl
  | arrived c m hfirst hplace hlower hupper =>
      have hmem := first_some hfirst
      have hfound : Found copies m.place := ⟨c, hmem.1, hplace.symm⟩
      have hlabels : m.labels ∪ labelsBeside copies name m.place = labelsOf copies name := by
        refine Set.Subset.antisymm (Set.union_subset hupper labelsBeside_subset) ?_
        rw [← labels_union_beside hdistinct hmem.1 hmem.2, hplace]
        exact Set.union_subset_union_left _ hlower
      rw [hplace] at hfound hlabels
      simp only [reconcileEntry, hfirst, hplace, hfound, if_true, hlabels, Option.map_some]
  | kept e m hplace hlower hupper =>
      have hlabels : m.labels ∪ labelsBeside copies name e.place =
          e.labels ∪ labelsBeside copies name e.place := by
        refine Set.Subset.antisymm (Set.union_subset hupper Set.subset_union_right) ?_
        exact Set.union_subset_union_left _ hlower
      cases hfirst : first copies name with
      | none =>
          rw [labelsBeside_of_none hfirst, Set.union_empty, Set.union_empty] at hlabels
          simp only [reconcileEntry, hfirst, hplace, hlabels]
      | some c => simp only [reconcileEntry, hfirst, hplace, hlabels]
  | moved e c m hgone hfirst hplace hlabels =>
      have hfound : Found copies m.place := ⟨c, (first_some hfirst).1, hplace.symm⟩
      have hunion : m.labels ∪ labelsBeside copies name m.place =
          e.labels ∪ labelsBeside copies name e.place := by
        rw [labelsBeside_of_not_found hgone, hlabels, Set.union_assoc,
          Set.union_eq_self_of_subset_right labelsBeside_subset]
      rw [hplace] at hfound hunion
      simp only [reconcileEntry, hfirst, hplace, hfound, hgone, if_true, if_false, hunion]

/-- Reconciling is a step on the way, so doing it twice changes nothing more. -/
theorem Underway.reconcileEntry (entry : Option (Entry P A)) :
    Underway copies name entry (reconcileEntry copies name entry) := by
  cases entry with
  | none =>
      cases hfirst : first copies name with
      | none => simpa only [Catalogue.reconcileEntry, hfirst] using .absent
      | some c =>
          have hmem := first_some hfirst
          simp only [Catalogue.reconcileEntry, hfirst, Option.map_some]
          refine .arrived c _ hfirst rfl (fun a ha => ?_) (le_refl _)
          exact ⟨c, hmem.1, hmem.2, ha⟩
  | some e =>
      cases hfirst : first copies name with
      | none =>
          simp only [Catalogue.reconcileEntry, hfirst]
          exact .kept _ _ rfl (le_refl _) Set.subset_union_left
      | some c =>
          simp only [Catalogue.reconcileEntry, hfirst]
          by_cases hfound : Found copies e.place
          · exact .kept e _ (by simp [hfound]) Set.subset_union_left (le_refl _)
          · refine .moved e c _ hfound hfirst (by simp [hfound]) ?_
            simp [labelsBeside_of_not_found hfound]

theorem reconcile_underway (hdistinct : (copies.map Copy.place).Nodup)
    {later : N → Option (Entry P A)} (h : ∀ name, Underway copies name (catalogue name) (later name)) :
    reconcile copies later = reconcile copies catalogue := by
  funext name
  exact (h name).reconcileEntry_eq hdistinct

theorem reconcile_idem (hdistinct : (copies.map Copy.place).Nodup) :
    reconcile copies (reconcile copies catalogue) = reconcile copies catalogue :=
  reconcile_underway hdistinct fun name => Underway.reconcileEntry (catalogue name)

omit [DecidableEq P] in
/-- Where the entry of a later catalogue points: where it did, or at the first copy. -/
theorem Underway.place (h : Underway copies name (catalogue name) (some m)) :
    (∃ e, catalogue name = some e ∧ m.place = e.place) ∨
      ∃ c ∈ copies, c.name = name ∧ m.place = c.place := by
  generalize hentry : catalogue name = entry at h
  cases h with
  | arrived c m hfirst hplace hlower hupper =>
      exact .inr ⟨c, (first_some hfirst).1, (first_some hfirst).2, hplace⟩
  | kept e m hplace hlower hupper => exact .inl ⟨e, rfl, hplace⟩
  | moved e c m hgone hfirst hplace hlabels =>
      exact .inr ⟨c, (first_some hfirst).1, (first_some hfirst).2, hplace⟩

omit [DecidableEq P] in
/-- A catalogue on its way stays sound. -/
theorem Sound.underway (hsound : Sound copies catalogue)
    (hdistinct : (copies.map Copy.place).Nodup) {later : N → Option (Entry P A)}
    (h : ∀ name, Underway copies name (catalogue name) (later name)) : Sound copies later := by
  have hplace : ∀ {name m}, later name = some m →
      (∃ e, catalogue name = some e ∧ m.place = e.place) ∨
        ∃ c ∈ copies, c.name = name ∧ m.place = c.place := by
    intro name m hm
    exact Underway.place (hm ▸ h name)
  have hnamed : ∀ {name m c}, later name = some m → c ∈ copies → c.place = m.place →
      c.name = name := by
    intro name m c hm hc hcplace
    rcases hplace hm with ⟨e, he, hsame⟩ | ⟨c', hc', hname, hsame⟩
    · exact hsound.named he hc (hcplace.trans hsame)
    · rw [← hname, List.inj_on_of_nodup_map hdistinct hc hc' (hcplace.trans hsame)]
  refine ⟨?_, hnamed⟩
  intro name name' m m' hm hm' hsame
  rcases hplace hm with ⟨e, he, hm₁⟩ | ⟨c, hc, hname, hm₁⟩
  · rcases hplace hm' with ⟨e', he', hm₂⟩ | ⟨c', hc', hname', hm₂⟩
    · exact hsound.apart he he' (hm₁.symm.trans (hsame.trans hm₂))
    · rw [← hname']
      exact (hnamed hm hc' (hm₂.symm.trans hsame.symm)).symm
  · rw [← hname]
    exact hnamed hm' hc (hm₁.symm.trans hsame)

end Catalogue
