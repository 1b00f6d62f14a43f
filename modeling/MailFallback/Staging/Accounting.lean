import MailFallback.Library.TableSum
import MailFallback.Staging.Session

/-! # The accounts of the staging areas

The byte counter of an area is kept up by additions and removals, and computed anew by
`reconcile`. Whatever way it takes, it says what the rows of the area add up to. -/

namespace MailFallback.Staging

open Storage Effects Transition Index Snapshots Access Search StagingTask

variable {H : Type} {db : StagingDb H} {areaId id : Id} {area : StagingArea}
  {m : StagingMessage H}

/-! ## The ledger -/

def areaBytes (db : StagingDb H) (areaId : Id) : ℕ :=
  db.staged.sumBy fun _ m => if m.stagingId = areaId then m.sizeBytes else 0

def StagingMessage.key (m : StagingMessage H) : MessageKey H :=
  (m.sourceAccountId, m.messageIdHash)

structure Exact (db : StagingDb H) : Prop where
  oneRow : ∀ i j m n, db.staged.get? i = some m → db.staged.get? j = some n →
    m.stagingId = n.stagingId → m.key = n.key → i = j
  bytes : ∀ i area, db.areas.get? i = some area → area.bytesUsed = areaBytes db i
  quota : ∀ i area, db.areas.get? i = some area → 0 < area.maxBytes →
    (area.bytesUsed : ℤ) ≤ area.maxBytes

theorem mem_stagedOf {row : Id × StagingMessage H} :
    row ∈ stagedOf db areaId ↔ db.staged.get? row.1 = some row.2 ∧ row.2.stagingId = areaId := by
  rw [stagedOf, List.mem_filter, decide_eq_true_eq, ← Table.mem_rows]

theorem nodup_stagedOf : ((stagedOf db areaId).map Prod.fst).Nodup :=
  db.staged.nodup.sublist (List.filter_sublist.map _)

theorem areaBytes_eq_sum :
    areaBytes db areaId = ((stagedOf db areaId).map fun row => row.2.sizeBytes).sum := by
  unfold areaBytes stagedOf Table.sumBy
  induction db.staged.rows with
  | nil => rfl
  | cons row rows ih =>
      rw [List.map_cons, List.sum_cons, List.filter_cons, ih]
      by_cases h : row.2.stagingId = areaId <;> simp [h]

/-! ### One write -/

theorem areaBytes_deleteMessage (h : db.staged.get? id = some m) (areaId : Id) :
    areaBytes (db.deleteMessage id) areaId + (if m.stagingId = areaId then m.sizeBytes else 0) =
      areaBytes db areaId :=
  Table.sumBy_remove h _

theorem areaBytes_renameStaged (name : String) :
    areaBytes (db.renameStaged id name) areaId = areaBytes db areaId := by
  unfold areaBytes StagingDb.renameStaged Table.modify
  rw [Table.sumBy_map]
  apply Table.sumBy_congr
  intro k m _
  split <;> rfl

theorem areaBytes_deleteArea {other : Id} (h : other ≠ areaId) :
    areaBytes (db.deleteArea areaId) other = areaBytes db other := by
  have hrows : (db.deleteArea areaId).staged =
      db.staged.filter fun _ m => decide (m.stagingId ≠ areaId) := rfl
  rw [areaBytes, hrows]
  apply Table.sumBy_filter_eq
  intro k m _ hm
  have hin : m.stagingId = areaId := by simpa using hm
  rw [if_neg (hin ▸ h.symm)]

theorem areaBytes_insertMessage {db' : StagingDb H} (h : db.insertMessage id m = some db') :
    areaBytes db' areaId =
      areaBytes db areaId + if m.stagingId = areaId then m.sizeBytes else 0 := by
  unfold StagingDb.insertMessage at h
  split at h
  · rename_i hnew
    obtain rfl := Option.some.inj h
    exact Table.sumBy_add _ _ _ hnew.1 _
  · cases h

/-- An area without rows holds nothing. -/
theorem areaBytes_eq_zero (h : ∀ k m, db.staged.get? k = some m → m.stagingId ≠ areaId) :
    areaBytes db areaId = 0 := by
  have hrows : stagedOf db areaId = [] := by
    rw [List.eq_nil_iff_forall_not_mem]
    intro row hrow
    obtain ⟨hget, hin⟩ := mem_stagedOf.mp hrow
    exact h row.1 row.2 hget hin
  rw [areaBytes_eq_sum, hrows]
  rfl

/-! ### The changes the services make -/

theorem get?_deleteMessage (k : Id) (m' : StagingMessage H) :
    (db.deleteMessage id).staged.get? k = some m' ↔ db.staged.get? k = some m' ∧ k ≠ id := by
  rw [StagingDb.deleteMessage, Table.get?_filter, Option.filter_eq_some_iff, decide_eq_true_eq]

theorem get?_deleteArea_staged (k : Id) (m' : StagingMessage H) :
    (db.deleteArea areaId).staged.get? k = some m' ↔
      db.staged.get? k = some m' ∧ m'.stagingId ≠ areaId := by
  rw [StagingDb.deleteArea, Table.get?_filter, Option.filter_eq_some_iff, decide_eq_true_eq]

theorem get?_deleteArea_areas (k : Id) (area : StagingArea) :
    (db.deleteArea areaId).areas.get? k = some area ↔ db.areas.get? k = some area ∧ k ≠ areaId := by
  rw [StagingDb.deleteArea, Table.get?_filter, Option.filter_eq_some_iff, decide_eq_true_eq]

theorem get?_setBytesUsed (n : ℕ) (k : Id) (area' : StagingArea) :
    (db.setBytesUsed areaId n).areas.get? k = some area' ↔
      ∃ area, db.areas.get? k = some area ∧
        area' = if k = areaId then { area with bytesUsed := n } else area := by
  have hrows : (db.setBytesUsed areaId n).areas =
      db.areas.map fun k area => if k = areaId then { area with bytesUsed := n } else area := rfl
  rw [hrows, Table.get?_map, Option.map_eq_some_iff]
  simp only [eq_comm]

/-- The deletion of an area. -/
theorem Exact.deleteArea (h : Exact db) : Exact (db.deleteArea areaId) where
  oneRow i j m n hi hj hm hk :=
    h.oneRow i j m n ((get?_deleteArea_staged i m).mp hi).1 ((get?_deleteArea_staged j n).mp hj).1
      hm hk
  bytes i area hi := by
    obtain ⟨hrow, hne⟩ := (get?_deleteArea_areas i area).mp hi
    rw [areaBytes_deleteArea hne]
    exact h.bytes i area hrow
  quota i area hi := h.quota i area ((get?_deleteArea_areas i area).mp hi).1

/-- A message leaves an area, and the counter goes down by its size. -/
theorem Exact.dropMessage (h : Exact db) (hm : db.staged.get? id = some m)
    (hin : m.stagingId = areaId) (harea : db.areas.get? areaId = some area) :
    Exact ((db.setBytesUsed areaId (area.bytesUsed - m.sizeBytes)).deleteMessage id) := by
  have hbytes := areaBytes_deleteMessage hm areaId
  rw [if_pos hin, ← h.bytes areaId area harea] at hbytes
  refine ⟨?_, ?_, ?_⟩
  · intro i j m n hi hj
    exact h.oneRow i j m n ((get?_deleteMessage i m).mp hi).1 ((get?_deleteMessage j n).mp hj).1
  · intro i area' hi
    obtain ⟨row, hrow, hset⟩ := (get?_setBytesUsed _ i area').mp hi
    by_cases hia : i = areaId
    · rw [if_pos hia] at hset
      rw [hset, hia]
      change area.bytesUsed - m.sizeBytes = areaBytes (db.deleteMessage id) areaId
      omega
    · rw [if_neg hia] at hset
      have hother := areaBytes_deleteMessage hm i
      rw [if_neg (hin ▸ Ne.symm hia), Nat.add_zero] at hother
      rw [hset, h.bytes i row hrow]
      exact hother.symm
  · intro i area' hi hmax
    obtain ⟨row, hrow, hset⟩ := (get?_setBytesUsed _ i area').mp hi
    by_cases hia : i = areaId
    · rw [if_pos hia] at hset
      obtain rfl : row = area := by
        rw [hia, harea] at hrow
        exact (Option.some.inj hrow).symm
      rw [hset] at hmax ⊢
      have hquota := h.quota i row hrow hmax
      dsimp only
      omega
    · rw [if_neg hia] at hset
      rw [hset] at hmax ⊢
      exact h.quota i row hrow hmax

theorem insertMessage_eq {db' : StagingDb H} (h : db.insertMessage id m = some db') :
    db'.areas = db.areas ∧
      ∀ k, db'.staged.get? k = if k = id then some m else db.staged.get? k := by
  unfold StagingDb.insertMessage at h
  split at h
  · rename_i hnew
    obtain rfl := Option.some.inj h
    exact ⟨rfl, fun k => Table.get?_add _ _ _ _ hnew.1⟩
  · cases h

theorem insertArea_eq {db' : StagingDb H} (h : db.insertArea areaId area = some db') :
    db.areas.get? areaId = none ∧ db'.staged = db.staged ∧
      ∀ k, db'.areas.get? k = if k = areaId then some area else db.areas.get? k := by
  unfold StagingDb.insertArea at h
  split at h
  · rename_i hnew
    obtain rfl := Option.some.inj h
    exact ⟨hnew.1, rfl, fun k => Table.get?_add _ _ _ _ hnew.1⟩
  · cases h

/-- The rows of an area that is not there. -/
theorem areaBytes_of_none (h : db.areas.get? areaId = none) : areaBytes db areaId = 0 := by
  apply areaBytes_eq_zero
  intro k m hm hin
  have hsome := db.stagedAreas k m hm
  rw [hin, h] at hsome
  cases hsome

/-- A new area is empty. -/
theorem Exact.insertArea {db' : StagingDb H} (h : Exact db)
    (hnew : db.insertArea areaId area = some db') (hzero : area.bytesUsed = 0) : Exact db' := by
  obtain ⟨hnone, hstaged, hareas⟩ := insertArea_eq hnew
  have hsame : ∀ b, areaBytes db' b = areaBytes db b := by
    intro b
    rw [areaBytes, hstaged]
    rfl
  refine ⟨?_, ?_, ?_⟩
  · rw [hstaged]
    exact h.oneRow
  · intro i row hi
    rw [hareas] at hi
    rw [hsame]
    split at hi
    · rename_i hia
      obtain rfl := Option.some.inj hi
      rw [hzero, hia, areaBytes_of_none hnone]
    · exact h.bytes i row hi
  · intro i row hi hmax
    rw [hareas] at hi
    split at hi
    · obtain rfl := Option.some.inj hi
      rw [hzero]
      exact_mod_cast hmax.le
    · exact h.quota i row hi hmax

/-- A message joins an area that has room for it, and the counter goes up by its size. -/
theorem Exact.addMessage {db' : StagingDb H} (h : Exact db) (hnew : db.insertMessage id m = some db')
    (harea : db.areas.get? m.stagingId = some area)
    (hkey : ∀ k n, db.staged.get? k = some n → n.stagingId = m.stagingId → n.key ≠ m.key)
    (hroom : 0 < area.maxBytes → ((area.bytesUsed + m.sizeBytes : ℕ) : ℤ) ≤ area.maxBytes) :
    Exact (db'.setBytesUsed m.stagingId (area.bytesUsed + m.sizeBytes)) := by
  obtain ⟨hareas, hstaged⟩ := insertMessage_eq hnew
  refine ⟨?_, ?_, ?_⟩
  · intro i j n n' hi hj hin hk
    change db'.staged.get? i = some n at hi
    change db'.staged.get? j = some n' at hj
    rw [hstaged] at hi hj
    split at hi <;> split at hj
    · simp_all
    · obtain rfl := Option.some.inj hi
      exact absurd hk.symm (hkey j n' hj hin.symm)
    · obtain rfl := Option.some.inj hj
      exact absurd hk (hkey i n hi hin)
    · exact h.oneRow i j n n' hi hj hin hk
  · intro i area' hi
    obtain ⟨row, hrow, hset⟩ := (get?_setBytesUsed _ i area').mp hi
    rw [hareas] at hrow
    change area'.bytesUsed = areaBytes db' i
    rw [areaBytes_insertMessage hnew, ← h.bytes i row hrow]
    by_cases hia : i = m.stagingId
    · rw [if_pos hia] at hset
      rw [hia, harea] at hrow
      obtain rfl := Option.some.inj hrow
      rw [hset, if_pos hia.symm]
    · rw [if_neg hia] at hset
      rw [hset, if_neg (Ne.symm hia), Nat.add_zero]
  · intro i area' hi hmax
    obtain ⟨row, hrow, hset⟩ := (get?_setBytesUsed _ i area').mp hi
    rw [hareas] at hrow
    by_cases hia : i = m.stagingId
    · rw [if_pos hia] at hset
      rw [hia, harea] at hrow
      obtain rfl := Option.some.inj hrow
      rw [hset] at hmax ⊢
      exact hroom hmax
    · rw [if_neg hia] at hset
      rw [hset] at hmax ⊢
      exact h.quota i row hrow hmax

/-! ## Reconciliation -/

theorem flushed_append (db : StagingDb H) (ws ws' : List (StagingWrite H)) :
    flushed db (ws ++ ws') = (flushed db ws).bind fun v => flushed v ws' :=
  List.foldlM_append

/-- Rows may be gone, and have other file names. -/
structure Thinned (db v : StagingDb H) : Prop where
  areas : v.areas = db.areas
  rows : ∀ k n, v.staged.get? k = some n →
    ∃ m, db.staged.get? k = some m ∧ n.stagingId = m.stagingId ∧ n.key = m.key

theorem Thinned.refl (db : StagingDb H) : Thinned db db := ⟨rfl, fun _ n hn => ⟨n, hn, rfl, rfl⟩⟩

theorem Thinned.trans {u v : StagingDb H} (h : Thinned db u) (h' : Thinned u v) :
    Thinned db v := by
  refine ⟨h'.areas.trans h.areas, ?_⟩
  intro k n hn
  obtain ⟨m, hm, hin, hkey⟩ := h'.rows k n hn
  obtain ⟨m', hm', hin', hkey'⟩ := h.rows k m hm
  exact ⟨m', hm', hin.trans hin', hkey.trans hkey'⟩

theorem thinned_deleteMessage : Thinned db (db.deleteMessage id) :=
  ⟨rfl, fun k n hn => ⟨n, ((get?_deleteMessage k n).mp hn).1, rfl, rfl⟩⟩

theorem get?_renameStaged (name : String) (k : Id) :
    (db.renameStaged id name).staged.get? k = (db.staged.get? k).map fun m =>
      if k = id then { m with stagedFilename := name } else m :=
  Table.get?_map ..

theorem thinned_renameStaged (name : String) : Thinned db (db.renameStaged id name) := by
  refine ⟨rfl, ?_⟩
  intro k n hn
  rw [get?_renameStaged, Option.map_eq_some_iff] at hn
  obtain ⟨m, hm, rfl⟩ := hn
  refine ⟨m, hm, ?_⟩
  split <;> exact ⟨rfl, rfl⟩

/-- How far the loop has come: `v` is what the writes so far make of `db`. -/
structure Reconciled (db : StagingDb H) (areaId : Id) (found : Findings H) (v : StagingDb H)
    (rest : List (Id × StagingMessage H)) : Prop where
  flushed : flushed db found.writes = some v
  thinned : Thinned db v
  left : ∀ row ∈ rest, v.staged.get? row.1 = some row.2 ∧ row.2.stagingId = areaId
  here : areaBytes v areaId = found.total + (rest.map fun row => row.2.sizeBytes).sum
  below : areaBytes v areaId ≤ areaBytes db areaId
  others : ∀ b, b ≠ areaId → areaBytes v b = areaBytes db b

theorem Reconciled.step {found : Findings H} {v : StagingDb H} {row : Id × StagingMessage H}
    {rest : List (Id × StagingMessage H)} (h : Reconciled db areaId found v (row :: rest))
    (hrest : ∀ other ∈ rest, other.1 ≠ row.1) (names : Table String String) :
    ∃ v', Reconciled db areaId (reconcileRow names found row) v' rest := by
  obtain ⟨hrow, hin⟩ := h.left row List.mem_cons_self
  have hbytes := h.here
  rw [List.map_cons, List.sum_cons] at hbytes
  unfold reconcileRow
  split
  · -- The file is gone, and the row goes with it.
    have hdrop := areaBytes_deleteMessage hrow
    have hhere := hdrop areaId
    rw [if_pos hin] at hhere
    refine ⟨v.deleteMessage row.1, ?_, h.thinned.trans thinned_deleteMessage, ?_, ?_, ?_, ?_⟩
    · rw [flushed_append, h.flushed]
      rfl
    · intro other hother
      obtain ⟨hget, hin'⟩ := h.left other (List.mem_cons_of_mem _ hother)
      exact ⟨(get?_deleteMessage _ _).mpr ⟨hget, hrest other hother⟩, hin'⟩
    · dsimp only
      omega
    · have := h.below
      omega
    · intro b hb
      have hother := hdrop b
      rw [if_neg (hin ▸ hb.symm), Nat.add_zero] at hother
      rw [hother]
      exact h.others b hb
  · rename_i actual _
    split
    · refine ⟨v, h.flushed, h.thinned, ?_, ?_, h.below, h.others⟩
      · exact fun other hother => h.left other (List.mem_cons_of_mem _ hother)
      · dsimp only
        omega
    · refine ⟨v.renameStaged row.1 actual, ?_, h.thinned.trans (thinned_renameStaged actual), ?_,
        ?_, ?_, ?_⟩
      · rw [flushed_append, h.flushed]
        change ([StagingWrite.renameStaged row.1 actual].foldlM StagingWrite.apply v) = _
        simp [StagingWrite.apply, hrow]
      · intro other hother
        obtain ⟨hget, hin'⟩ := h.left other (List.mem_cons_of_mem _ hother)
        rw [get?_renameStaged, hget, Option.map_some, if_neg (hrest other hother)]
        exact ⟨rfl, hin'⟩
      · rw [areaBytes_renameStaged]
        dsimp only
        omega
      · rw [areaBytes_renameStaged]
        exact h.below
      · intro b hb
        rw [areaBytes_renameStaged]
        exact h.others b hb

theorem Reconciled.run {found : Findings H} {v : StagingDb H}
    {rest : List (Id × StagingMessage H)} (h : Reconciled db areaId found v rest)
    (hrest : (rest.map Prod.fst).Nodup) (names : Table String String) :
    ∃ v', Reconciled db areaId (rest.foldl (reconcileRow names) found) v' [] := by
  induction rest generalizing found v with
  | nil => exact ⟨v, h⟩
  | cons row rest ih =>
      rw [List.map_cons, List.nodup_cons] at hrest
      have hne : ∀ other ∈ rest, other.1 ≠ row.1 := by
        intro other hother heq
        exact hrest.1 (List.mem_map.mpr ⟨other, hother, heq⟩)
      obtain ⟨v', h'⟩ := h.step hne names
      exact ih h' hrest.2

/-- The loop over all the rows of the area, in any order. -/
theorem reconciled {rows : List (Id × StagingMessage H)} (hrows : rows.Perm (stagedOf db areaId))
    (names : Table String String) :
    ∃ v, Reconciled db areaId (rows.foldl (reconcileRow names) {}) v [] := by
  have hstart : Reconciled db areaId {} db rows := by
    refine ⟨rfl, Thinned.refl db, ?_, ?_, le_rfl, fun _ _ => rfl⟩
    · intro row hrow
      exact mem_stagedOf.mp (hrows.mem_iff.mp hrow)
    · rw [areaBytes_eq_sum, ← (hrows.map fun row => row.2.sizeBytes).sum_eq]
      exact (Nat.zero_add _).symm
  exact hstart.run ((hrows.map Prod.fst).nodup_iff.mpr nodup_stagedOf) names

/-- What `reconcile` commits: the rows that are left, and what they add up to. -/
theorem Exact.reconcile {found : Findings H} {v : StagingDb H} (h : Exact db)
    (hv : Reconciled db areaId found v []) (harea : db.areas.get? areaId = some area) :
    Exact (v.setBytesUsed areaId found.total) := by
  have hhere : areaBytes v areaId = found.total := hv.here
  have hbelow := hv.below
  rw [← h.bytes areaId area harea, hhere] at hbelow
  refine ⟨?_, ?_, ?_⟩
  · intro i j m n hi hj hin hk
    obtain ⟨m', hm', hin₁, hk₁⟩ := hv.thinned.rows i m hi
    obtain ⟨n', hn', hin₂, hk₂⟩ := hv.thinned.rows j n hj
    exact h.oneRow i j m' n' hm' hn' (hin₁.symm.trans (hin.trans hin₂))
      (hk₁.symm.trans (hk.trans hk₂))
  · intro i area' hi
    obtain ⟨row, hrow, hset⟩ := (get?_setBytesUsed _ i area').mp hi
    rw [hv.thinned.areas] at hrow
    by_cases hia : i = areaId
    · rw [if_pos hia] at hset
      rw [hset, hia]
      exact hhere.symm
    · rw [if_neg hia] at hset
      rw [hset, h.bytes i row hrow]
      exact (hv.others i hia).symm
  · intro i area' hi hmax
    obtain ⟨row, hrow, hset⟩ := (get?_setBytesUsed _ i area').mp hi
    rw [hv.thinned.areas] at hrow
    by_cases hia : i = areaId
    · rw [if_pos hia] at hset
      rw [hia, harea] at hrow
      obtain rfl := Option.some.inj hrow
      rw [hset] at hmax ⊢
      have hquota := h.quota areaId area harea hmax
      dsimp only
      omega
    · rw [if_neg hia] at hset
      rw [hset] at hmax ⊢
      exact h.quota i row hrow hmax

/-! ## The area of a user -/

theorem areaOf_eq_some {userId : Id} {row : Id × StagingArea} :
    areaOf db userId = some row ↔ db.areas.get? row.1 = some row.2 ∧ row.2.userId = userId := by
  unfold areaOf
  constructor
  · intro h
    have hin := List.find?_some h
    exact ⟨Table.mem_rows.mp (List.mem_of_find?_eq_some h), by simpa using hin⟩
  · intro h
    obtain ⟨hrow, huser⟩ := h
    cases hfound : db.areas.rows.find? fun row => decide (row.2.userId = userId) with
    | none =>
        have hall := List.find?_eq_none.mp hfound row (Table.mem_rows.mpr hrow)
        simp [huser] at hall
    | some other =>
        have hother := List.find?_some hfound
        rw [decide_eq_true_eq] at hother
        have hget := Table.mem_rows.mp (List.mem_of_find?_eq_some hfound)
        have hid := db.areaUsers row.1 other.1 row.2 other.2 hrow hget (huser.trans hother.symm)
        rw [← hid, hrow] at hget
        rw [Option.some.injEq]
        exact Prod.ext hid.symm (Option.some.inj hget).symm

theorem areaOf_eq_none {userId : Id} :
    areaOf db userId = none ↔ ∀ row ∈ db.areas.rows, row.2.userId ≠ userId := by
  simp [areaOf, List.find?_eq_none]

theorem seen_of_nil {s : Session H} (h : s.pending = []) : s.seen = some s.world.db := by
  rw [Session.seen, h]
  rfl

/-! ## The services -/

section Services

variable [DecidableEq H] {s : Session H} {time : Time} {user : StagingUser} {host : Host H}

theorem reconcile_safe {row : Id × StagingArea} (h : (always Exact time).crash s)
    (hp : s.pending = []) (hrow : s.world.db.areas.get? row.1 = some row.2) :
    Safe stagingMachine (always Exact time)
      (fun _ t => t.pending = [] ∧
        ∃ n, t.world.db.areas.get? row.1 = some { row.2 with bytesUsed := n })
      (fun _ _ => True) (reconcile user row) s := by
  unfold reconcile
  apply Safe.bind
  refine (offline_safe (adopted_offline user) h).post ?_ fun _ _ _ _ => trivial
  intro adopted t hc ht
  cases adopted with
  | false => exact ⟨hc, ht.pending.trans hp, row.2.bytesUsed, ht.db ▸ hrow⟩
  | true =>
      apply Safe.bind
      refine (offline_safe (onDisk_offline (stagingDir user)) hc).post ?_ fun _ _ _ _ => trivial
      intro names u hcu htu
      have hsame := ht.trans htu
      have hpu : u.pending = [] := hsame.pending.trans hp
      have hrowu : u.world.db.areas.get? row.1 = some row.2 := hsame.db ▸ hrow
      apply Safe.bind
      refine stagedRows_safe hcu ?_ fun _ => trivial
      intro rows db hseen hrows
      obtain rfl : u.world.db = db := Option.some.inj ((seen_of_nil hpu).symm.trans hseen)
      obtain ⟨v, hv⟩ := reconciled hrows names
      dsimp only
      split
      · apply Safe.bind
        refine stage_safe hcu ?_
        apply Safe.bind
        refine commit_safe hcu ?_ fun _ => trivial
        intro db' hdb'
        rw [Session.seen, hpu, List.nil_append, flushed_append, hv.flushed, Option.bind_some] at hdb'
        have hset : db' = v.setBytesUsed row.1 (rows.foldl (reconcileRow names) {}).total := by
          have hthere : v.areas.get? row.1 = some row.2 := hv.thinned.areas ▸ hrowu
          simpa [flushed, StagingWrite.apply, hthere] using hdb'.symm
        have hexact := hcu.1.reconcile hv hrowu
        rw [← hset] at hexact
        refine ⟨hexact, ⟨hexact, hcu.2⟩, rfl, (rows.foldl (reconcileRow names) {}).total, ?_⟩
        change db'.areas.get? row.1 = _
        rw [hset, get?_setBytesUsed]
        exact ⟨row.2, hv.thinned.areas ▸ hrowu, (if_pos rfl).symm⟩
      · exact ⟨hcu, hpu, row.2.bytesUsed, hrowu⟩

theorem getStatus_safe (h : (always Exact time).crash s) (hp : s.pending = []) :
    Safe stagingMachine (always Exact time) (fun _ _ => True) (fun _ _ => True)
      (getStatus host user) s := by
  unfold getStatus
  apply Safe.bind
  refine view_safe h ?_ fun _ => trivial
  intro db hseen
  obtain rfl : s.world.db = db := Option.some.inj ((seen_of_nil hp).symm.trans hseen)
  cases hrow : areaOf s.world.db user.id with
  | none => exact ⟨h, trivial⟩
  | some row =>
      apply Safe.bind
      refine isExpired_safe h ?_
      cases decide (row.2.expiresAt ≤ time) with
      | true => exact ⟨h, trivial⟩
      | false =>
          apply Safe.bind
          refine (reconcile_safe h hp (areaOf_eq_some.mp hrow).1).post ?_ fun _ _ _ _ => trivial
          intro _ t hc _
          apply Safe.bind
          refine op_safe hc ?_ fun _ _ => trivial
          intro n u hu
          obtain ⟨-, rfl⟩ := machine_stagedCount.mp hu
          refine ⟨hc, ?_⟩
          apply Safe.bind
          exact reload_safe hc (fun _ _ _ _ => ⟨hc, trivial⟩) fun _ => trivial

/-- A new area when the user has none: it is empty, and no constraint is broken. -/
theorem createArea_safe {db₁ : StagingDb H} (h : (always Exact time).crash s)
    (hseen : s.seen = some db₁) (hexact : Exact db₁)
    (hnone : ∀ row ∈ db₁.areas.rows, row.2.userId ≠ user.id) :
    Safe stagingMachine (always Exact time)
      (fun result t => t.world.db = s.world.db ∧ ∃ id area v, result = some (id, area) ∧
        t.seen = some v ∧ Exact v ∧ v.areas.get? id = some area ∧ area.bytesUsed = 0 ∧
        area.maxBytes = host.stagingMaxBytes ∧
        ∀ k m, v.staged.get? k = some m → m.stagingId ≠ id)
      (fun _ _ => True) (createArea host user) s := by
  unfold createArea
  apply Safe.bind
  refine now_safe h ?_
  apply Safe.bind
  refine newId_safe h ?_
  intro id hfresh
  have hid : db₁.areas.get? id = none := by
    have hall := hfresh db₁ hseen
    simp only [isFresh, Bool.and_eq_true, Option.isNone_iff_eq_none] at hall
    exact hall.1.1
  dsimp only
  apply Safe.bind
  refine stage_safe h ?_
  obtain ⟨v, hv⟩ : ∃ v, db₁.insertArea id
      { userId := user.id
        expiresAt := time + host.stagingTtlMinutes * 60000000
        maxBytes := host.stagingMaxBytes } = some v := by
    unfold StagingDb.insertArea
    rw [dif_pos ⟨hid, hnone⟩]
    exact ⟨_, rfl⟩
  have hseen' : flushed s.world.db (s.pending ++ [.insertArea id
      { userId := user.id
        expiresAt := time + host.stagingTtlMinutes * 60000000
        maxBytes := host.stagingMaxBytes }]) = some v := by
    rw [flushed_append, show flushed s.world.db s.pending = some db₁ from hseen]
    exact (bind_pure _).trans hv
  obtain ⟨-, hstaged, hareas⟩ := insertArea_eq hv
  apply Safe.handle
  apply Safe.bind
  refine flush_safe h ?_ ?_
  · refine ⟨h, rfl, id, _, v, rfl, hseen', hexact.insertArea hv rfl, ?_, rfl, rfl, ?_⟩
    · rw [hareas, if_pos rfl]
    · intro k m hm hin
      rw [hstaged] at hm
      have hthere := db₁.stagedAreas k m hm
      rw [hin, hid] at hthere
      cases hthere
  · intro e he
    cases e with
    | integrity =>
        simp only [Session.mayRaise, Session.seen, hseen', Option.isNone_some] at he
        cases he
    | _ => exact ⟨h, trivial⟩

/-- The area that messages are added to: the live one, or a new one that is empty. -/
inductive Ready (host : Host H) (time : Time) (userId : Id) (db₀ : StagingDb H) (id : Id)
    (area : StagingArea) (v : StagingDb H) : Prop where
  | live (h : areaOf db₀ userId = some (id, area)) (hlive : time < area.expiresAt) (hv : v = db₀)
  | new (h : ∀ row, areaOf db₀ userId = some row → row.2.expiresAt ≤ time)
      (hbytes : area.bytesUsed = 0) (hmax : area.maxBytes = host.stagingMaxBytes)
      (hexact : Exact v) (hrow : v.areas.get? id = some area)
      (hempty : ∀ k m, v.staged.get? k = some m → m.stagingId ≠ id)

theorem getOrCreateArea_safe (h : (always Exact time).crash s) (hp : s.pending = []) :
    Safe stagingMachine (always Exact time)
      (fun result t => t.world.db = s.world.db ∧ ∃ id area v, result = some (id, area) ∧
        t.seen = some v ∧ Ready host time user.id s.world.db id area v)
      (fun _ _ => True) (getOrCreateArea host user) s := by
  unfold getOrCreateArea
  apply Safe.bind
  refine view_safe h ?_ fun _ => trivial
  intro db hseen
  obtain rfl : s.world.db = db := Option.some.inj ((seen_of_nil hp).symm.trans hseen)
  cases hrow : areaOf s.world.db user.id with
  | none =>
      refine (createArea_safe h hseen h.1 (areaOf_eq_none.mp hrow)).post ?_ fun _ _ _ _ => trivial
      intro result t _ ht
      obtain ⟨hdb, id, area, v, rfl, hv, hexact, hget, hbytes, hmax, hempty⟩ := ht
      refine ⟨hdb, id, area, v, rfl, hv, .new ?_ hbytes hmax hexact hget hempty⟩
      intro row hrow'
      rw [hrow] at hrow'
      cases hrow'
  | some row =>
      apply Safe.bind
      refine isExpired_safe h ?_
      cases hexpired : decide (row.2.expiresAt ≤ time) with
      | false =>
          have hlive : time < row.2.expiresAt := by simpa using hexpired
          exact ⟨h, rfl, row.1, row.2, s.world.db, rfl, hseen, .live hrow hlive rfl⟩
      | true =>
          apply Safe.bind
          refine (offline_safe (removeStagingDir_offline user) h).post ?_ fun _ _ _ _ => trivial
          intro _ t hc ht
          apply Safe.bind
          refine stage_safe hc ?_
          have hseen' : flushed t.world.db (t.pending ++ [.deleteArea row.1]) =
              some (s.world.db.deleteArea row.1) := by
            rw [ht.pending, hp, ht.db]
            rfl
          apply Safe.bind
          refine flush_safe hc ?_ fun _ _ => trivial
          have hnone : ∀ other ∈ (s.world.db.deleteArea row.1).areas.rows,
              other.2.userId ≠ user.id := by
            intro other hother huser
            obtain ⟨hget, hne⟩ := (get?_deleteArea_areas _ _).mp (Table.mem_rows.mp hother)
            obtain ⟨hget', huser'⟩ := areaOf_eq_some.mp hrow
            exact hne (s.world.db.areaUsers _ _ _ _ hget hget' (huser.trans huser'.symm))
          have hc' : (always Exact time).crash
              { t with pending := t.pending ++ [.deleteArea row.1] } := hc
          refine (createArea_safe hc' hseen' h.1.deleteArea hnone).post ?_ fun _ _ _ _ => trivial
          intro result u _ hu
          obtain ⟨hdb, id, area, v, rfl, hv, hexact, hget, hbytes, hmax, hempty⟩ := hu
          refine ⟨hdb.trans ht.db, id, area, v, rfl, hv, .new ?_ hbytes hmax hexact hget hempty⟩
          intro other hother
          rw [hrow] at hother
          obtain rfl := Option.some.inj hother
          simpa using hexpired

/-! ### What is pending -/

/-- The session sees an exact database, if its changes fit. -/
def SeesExact (s : Session H) : Prop := ∀ v, s.seen = some v → Exact v

omit [DecidableEq H] in
theorem seesExact_of_nil (h : Exact s.world.db) (hp : s.pending = []) : SeesExact s := by
  intro v hv
  obtain rfl := Option.some.inj ((seen_of_nil hp).symm.trans hv)
  exact h

theorem deleteArea_safe (h : (always Exact time).crash s) (hseen : SeesExact s) :
    Safe stagingMachine (always Exact time) (fun _ => SeesExact) (fun _ _ => True)
      (stage [.deleteArea areaId]) s := by
  refine stage_safe h ?_
  intro v' hv'
  rw [Session.seen, flushed_append, Option.bind_eq_some_iff] at hv'
  obtain ⟨v, hv, hwrite⟩ := hv'
  obtain rfl := Option.some.inj hwrite
  exact (hseen v hv).deleteArea

theorem commit_exact_safe (h : (always Exact time).crash s) (hseen : SeesExact s) :
    Safe stagingMachine (always Exact time) (fun _ t => t.pending = []) (fun _ _ => True)
      commit s :=
  commit_safe h (fun db hdb => ⟨hseen db hdb, rfl⟩) fun _ => trivial

/-! ### Selection -/

/-- What the selection takes is new, and new once. -/
structure Chosen (existing : List (MessageKey H)) (chosen : Selection H) : Prop where
  old : ∀ key ∈ existing, key ∈ chosen.existing
  taken : ∀ item ∈ chosen.toStage, item.key ∈ chosen.existing
  fresh : ∀ item ∈ chosen.toStage, item.key ∉ existing
  nodup : (chosen.toStage.map Selected.key).Nodup

theorem selectItem_safe {existing : List (MessageKey H)} {chosen : Selection H}
    {visible : List Id} {includeAll : Bool} {key : MessageKey H}
    (h : (always Exact time).crash s) (hchosen : Chosen existing chosen) :
    Safe stagingMachine (always Exact time) (fun chosen' t => Same s t ∧ Chosen existing chosen')
      (fun _ _ => True) (selectItem user visible includeAll chosen key) s := by
  unfold selectItem
  split
  · exact ⟨h, trivial⟩
  · split
    · exact ⟨h, Same.refl s, hchosen⟩
    · rename_i hnew
      apply Safe.bind
      refine view_safe h ?_ fun _ => trivial
      intro db _
      apply Safe.bind
      refine (offline_safe (op_only rfl) h).post ?_ fun _ _ _ _ => trivial
      intro row t hc ht
      split
      · rename_i _ row' _
        apply Safe.bind
        refine (offline_safe (messageBytes_offline key row') hc).post ?_ fun _ _ _ _ => trivial
        intro raw u hcu hu
        cases raw with
        | none => exact ⟨hcu, ht.trans hu, hchosen.old, hchosen.taken, hchosen.fresh, hchosen.nodup⟩
        | some raw =>
            refine ⟨hcu, ht.trans hu, ?_, ?_, ?_, ?_⟩
            · exact fun k hk => List.mem_cons_of_mem _ (hchosen.old k hk)
            · intro item hitem
              cases List.mem_append.mp hitem with
              | inl hitem => exact List.mem_cons_of_mem _ (hchosen.taken item hitem)
              | inr hitem =>
                  rw [List.mem_singleton.mp hitem]
                  exact List.mem_cons_self
            · intro item hitem
              cases List.mem_append.mp hitem with
              | inl hitem => exact hchosen.fresh item hitem
              | inr hitem =>
                  rw [List.mem_singleton.mp hitem]
                  exact fun hold => hnew (hchosen.old key hold)
            · rw [List.map_append, List.map_singleton, List.nodup_append]
              refine ⟨hchosen.nodup, List.nodup_singleton _, ?_⟩
              intro k hk k' hk' heq
              obtain ⟨item, hitem, rfl⟩ := List.mem_map.mp hk
              rw [List.mem_singleton] at hk'
              have hsame : item.key = key := heq.trans hk'
              exact hnew (hsame ▸ hchosen.taken item hitem)
      · exact ⟨hc, ht, hchosen.old, hchosen.taken, hchosen.fresh, hchosen.nodup⟩

theorem select_safe {existing : List (MessageKey H)} {visible : List Id} {includeAll : Bool}
    (h : (always Exact time).crash s) (items : List (MessageKey H)) :
    Safe stagingMachine (always Exact time) (fun chosen t => Same s t ∧ Chosen existing chosen)
      (fun _ _ => True)
      (items.foldlM (selectItem user visible includeAll) { existing := existing }) s := by
  refine Safe.foldlM (fun _ chosen t => Same s t ∧ Chosen existing chosen) items ?_ h ?_
  · exact ⟨Same.refl s, fun _ h => h, by simp, by simp, List.nodup_nil⟩
  · intro _ key _ chosen t _ hc ht
    refine (selectItem_safe hc ht.2).post ?_ fun _ _ _ _ => trivial
    intro chosen' u _ hu
    exact ⟨ht.1.trans hu.1, hu.2⟩

/-! ### Copying -/

/-- The area has room for what is left to stage, and none of it yet. -/
structure Room (areaId : Id) (copied : Copied) (rest : List (Selected H)) (v : StagingDb H) :
    Prop where
  exact' : Exact v
  area : ∃ area, v.areas.get? areaId = some area ∧ area.bytesUsed = copied.bytesUsed ∧
    (0 < area.maxBytes →
      ((copied.bytesUsed + (rest.map fun item => item.raw.length).sum : ℕ) : ℤ) ≤ area.maxBytes)
  fresh : ∀ item ∈ rest, ∀ k m, v.staged.get? k = some m → m.stagingId = areaId →
    m.key ≠ item.key

omit [DecidableEq H] in
theorem Room.skip {copied : Copied} {item : Selected H} {rest : List (Selected H)}
    {v : StagingDb H} (h : Room areaId copied (item :: rest) v) :
    Room areaId { copied with failed := copied.failed + 1 } rest v := by
  obtain ⟨area, harea, hbytes, hroom⟩ := h.area
  refine ⟨h.exact', ⟨area, harea, hbytes, ?_⟩, fun other ho => h.fresh other (.tail _ ho)⟩
  intro hmax
  have := hroom hmax
  rw [List.map_cons, List.sum_cons] at this
  dsimp only
  omega

omit [DecidableEq H] in
theorem Room.take {copied : Copied} {item : Selected H} {rest : List (Selected H)}
    {v v₁ : StagingDb H} (h : Room areaId copied (item :: rest) v)
    (hnodup : ∀ other ∈ rest, other.key ≠ item.key) (hv₁ : v.insertMessage id m = some v₁)
    (hin : m.stagingId = areaId) (hkey : m.key = item.key) (hsize : m.sizeBytes = item.raw.length) :
    Room areaId
      { copied with
        staged := copied.staged + 1, bytesUsed := copied.bytesUsed + item.raw.length }
      rest (v₁.setBytesUsed areaId (copied.bytesUsed + item.raw.length)) := by
  obtain ⟨area, harea, hbytes, hroom⟩ := h.area
  obtain ⟨hareas, hstaged⟩ := insertMessage_eq hv₁
  rw [List.map_cons, List.sum_cons] at hroom
  refine ⟨?_, ⟨{ area with bytesUsed := copied.bytesUsed + item.raw.length }, ?_, rfl, ?_⟩, ?_⟩
  · rw [← hbytes, ← hsize, ← hin]
    refine h.exact'.addMessage hv₁ (hin ▸ harea) ?_ ?_
    · intro k n hn hsame
      rw [hkey]
      exact h.fresh item List.mem_cons_self k n hn (hsame.trans hin)
    · intro hmax
      have := hroom hmax
      rw [hbytes, hsize]
      omega
  · rw [get?_setBytesUsed]
    exact ⟨area, hareas ▸ harea, (if_pos rfl).symm⟩
  · intro hmax
    have := hroom hmax
    dsimp only
    omega
  · intro other ho k n hn hsame
    change v₁.staged.get? k = some n at hn
    rw [hstaged] at hn
    split at hn
    · obtain rfl := Option.some.inj hn
      rw [hkey]
      exact (hnodup other ho).symm
    · exact h.fresh other (.tail _ ho) k n hn hsame

theorem stageOne_safe {d : StagingDir} {now : Time} {copied : Copied} {item : Selected H}
    {rest : List (Selected H)} (h : (always Exact time).crash s)
    (hnodup : ∀ other ∈ rest, other.key ≠ item.key)
    (hroom : ∀ v, s.seen = some v → Room areaId copied (item :: rest) v) :
    Safe stagingMachine (always Exact time)
      (fun copied' t => ∀ v, t.seen = some v → Room areaId copied' rest v)
      (fun _ _ => True) (stageOne host d areaId now copied item) s := by
  unfold stageOne
  apply Safe.bind
  refine (offline_safe (op_only rfl) h).post ?_ fun _ _ _ _ => trivial
  intro token t hc ht
  dsimp only
  apply Safe.bind
  refine (offline_safe (copyFile_offline _ _ _) hc).post ?_ fun _ _ _ _ => trivial
  intro written u hcu hu
  have hseen : u.seen = s.seen := (ht.trans hu).seen
  cases written with
  | false =>
      refine ⟨hcu, ?_⟩
      intro v hv
      exact (hroom v (hseen ▸ hv)).skip
  | true =>
      apply Safe.bind
      refine newId_safe hcu ?_
      intro id _
      apply Safe.bind
      refine stage_safe hcu ⟨hcu, ?_⟩
      intro v' hv'
      rw [Session.seen, flushed_append, Option.bind_eq_some_iff] at hv'
      obtain ⟨v, hv, hwrites⟩ := hv'
      obtain ⟨v₁, hv₁, hrest⟩ := Option.bind_eq_some_iff.mp hwrites
      obtain ⟨v₂, hv₂, hend⟩ := Option.bind_eq_some_iff.mp hrest
      obtain rfl := Option.some.inj hend
      obtain ⟨-, hset⟩ := Option.ite_none_right_eq_some.mp hv₂
      obtain rfl := Option.some.inj hset
      exact (hroom v (hseen ▸ hv)).take hnodup hv₁ rfl rfl rfl

theorem copy_safe {d : StagingDir} {now : Time} {copied : Copied} {toStage : List (Selected H)}
    (h : (always Exact time).crash s) (hnodup : (toStage.map Selected.key).Nodup)
    (hroom : ∀ v, s.seen = some v → Room areaId copied toStage v) :
    Safe stagingMachine (always Exact time) (fun _ => SeesExact) (fun _ _ => True)
      (toStage.foldlM (stageOne host d areaId now) copied) s := by
  have hloop : Safe stagingMachine (always Exact time)
      (fun copied' t => ∀ rest, toStage = toStage ++ rest →
        ∀ v, t.seen = some v → Room areaId copied' rest v)
      (fun _ _ => True) (toStage.foldlM (stageOne host d areaId now) copied) s := by
    refine Safe.foldlM (fun done copied' t => ∀ rest, toStage = done ++ rest →
      ∀ v, t.seen = some v → Room areaId copied' rest v) toStage ?_ h ?_
    · intro rest hrest v hv
      obtain rfl : toStage = rest := hrest
      exact hroom v hv
    · intro done item rest copied' t hsplit hc hinv
      have hnodup' : ∀ other ∈ rest, other.key ≠ item.key := by
        rw [hsplit, List.map_append, List.nodup_append, List.map_cons, List.nodup_cons] at hnodup
        intro other ho heq
        exact hnodup.2.1.1 (List.mem_map.mpr ⟨other, ho, heq⟩)
      refine (stageOne_safe hc hnodup' (hinv _ hsplit)).post ?_ fun _ _ _ _ => trivial
      intro copied'' u _ hu rest' hrest' v hv
      have hsame : rest = rest' := by
        rw [hsplit, List.append_assoc, List.singleton_append, List.append_cancel_left_eq]
          at hrest'
        exact (List.cons.inj hrest').2
      exact hsame ▸ hu v hv
  refine hloop.post ?_ fun _ _ _ _ => trivial
  intro _ t _ ht v hv
  exact (ht [] (List.append_nil _).symm v hv).exact'

/-- The selection fits into the area that it will be added to. -/
structure Fits (host : Host H) (time : Time) (userId : Id) (db : StagingDb H)
    (chosen : Selection H) : Prop where
  nodup : (chosen.toStage.map Selected.key).Nodup
  fresh : ∀ row, areaOf db userId = some row → time < row.2.expiresAt →
    ∀ item ∈ chosen.toStage, ∀ k m, db.staged.get? k = some m → m.stagingId = row.1 →
      m.key ≠ item.key
  live : ∀ row, areaOf db userId = some row → time < row.2.expiresAt → 0 < row.2.maxBytes →
    ((row.2.bytesUsed + chosen.incoming : ℕ) : ℤ) ≤ row.2.maxBytes
  new : (∀ row, areaOf db userId = some row → row.2.expiresAt ≤ time) → 0 < host.stagingMaxBytes →
    (chosen.incoming : ℤ) ≤ host.stagingMaxBytes

omit [DecidableEq H] in
theorem Fits.room {chosen : Selection H} {db₀ v : StagingDb H}
    (h : Fits host time user.id db₀ chosen) (h₀ : Exact db₀)
    (hready : Ready host time user.id db₀ areaId area v) :
    Room areaId { failed := chosen.failed, bytesUsed := area.bytesUsed } chosen.toStage v := by
  cases hready with
  | live harea hlive hv =>
      obtain rfl := hv
      exact ⟨h₀, ⟨area, (areaOf_eq_some.mp harea).1, rfl, h.live _ harea hlive⟩,
        h.fresh _ harea hlive⟩
  | new hold hbytes hmax hexact hrow hempty =>
      refine ⟨hexact, ⟨area, hrow, rfl, ?_⟩, ?_⟩
      · intro hpos
        have hquota := h.new hold (hmax ▸ hpos)
        rw [hbytes, hmax, Nat.zero_add]
        exact hquota
      · exact fun item _ k m hm hin => absurd hin (hempty k m hm)

theorem stageSelected_safe {items : List (MessageKey H)} {chosen : Selection H}
    (h : (always Exact time).crash s) (hp : s.pending = [])
    (hfits : Fits host time user.id s.world.db chosen) :
    Safe stagingMachine (always Exact time) (fun _ _ => True) (fun _ _ => True)
      (stageSelected host user items chosen) s := by
  unfold stageSelected
  apply Safe.bind
  refine (getOrCreateArea_safe h hp).post ?_ fun _ _ _ _ => trivial
  intro result t hc ht
  obtain ⟨-, id, area, v, rfl, hseen, hready⟩ := ht
  apply Safe.bind
  refine (offline_safe (ensureStagingDir_offline user) hc).post ?_ fun _ _ _ _ => trivial
  intro d u hcu hu
  apply Safe.bind
  refine now_safe hcu ?_
  dsimp only
  apply Safe.bind
  refine (copy_safe hcu hfits.nodup ?_).post ?_ fun _ _ _ _ => trivial
  · intro v' hv'
    rw [hu.seen, hseen] at hv'
    obtain rfl := Option.some.inj hv'
    exact hfits.room h.1 hready
  · intro copied w hcw hw
    apply Safe.bind
    refine (commit_exact_safe hcw hw).post ?_ fun _ _ _ _ => trivial
    exact fun _ x hcx _ => ⟨hcx, trivial⟩

theorem stagedAlready_safe (h : (always Exact time).crash s) (hp : s.pending = []) :
    Safe stagingMachine (always Exact time)
      (fun found t => t.pending = [] ∧
        match found.1 with
        | some row => areaOf t.world.db user.id = some row ∧ time < row.2.expiresAt ∧
            ∀ k m, t.world.db.staged.get? k = some m → m.stagingId = row.1 → m.key ∈ found.2
        | none => ∀ row, areaOf t.world.db user.id = some row → row.2.expiresAt ≤ time)
      (fun _ _ => True) (stagedAlready user) s := by
  unfold stagedAlready
  apply Safe.bind
  refine view_safe h ?_ fun _ => trivial
  intro db hseen
  obtain rfl : s.world.db = db := Option.some.inj ((seen_of_nil hp).symm.trans hseen)
  cases hrow : areaOf s.world.db user.id with
  | none =>
      refine ⟨h, hp, ?_⟩
      intro row hrow'
      rw [hrow] at hrow'
      cases hrow'
  | some row =>
      apply Safe.bind
      refine isExpired_safe h ?_
      cases hexpired : decide (row.2.expiresAt ≤ time) with
      | true =>
          refine ⟨h, hp, ?_⟩
          intro other hother
          rw [hrow] at hother
          obtain rfl := Option.some.inj hother
          simpa using hexpired
      | false =>
          have hlive : time < row.2.expiresAt := by simpa using hexpired
          obtain ⟨hget, huser⟩ := areaOf_eq_some.mp hrow
          apply Safe.bind
          refine (reconcile_safe h hp hget).post ?_ fun _ _ _ _ => trivial
          intro _ t hc ht
          obtain ⟨hpt, n, hrowt⟩ := ht
          apply Safe.bind
          refine stagedRows_safe hc ?_ fun _ => trivial
          intro rows db hseen hrows
          obtain rfl : t.world.db = db := Option.some.inj ((seen_of_nil hpt).symm.trans hseen)
          apply Safe.bind
          refine reload_safe hc ?_ fun _ => trivial
          intro db area hseen' harea
          obtain rfl : t.world.db = db := Option.some.inj ((seen_of_nil hpt).symm.trans hseen')
          rw [hrowt] at harea
          obtain rfl := Option.some.inj harea
          refine ⟨hc, hpt, areaOf_eq_some.mpr ⟨hrowt, huser⟩, hlive, ?_⟩
          intro k m hm hin
          exact List.mem_map.mpr ⟨(k, m), hrows.mem_iff.mpr (mem_stagedOf.mpr ⟨hm, hin⟩), rfl⟩

theorem addVisible_safe {visible : List Id} {items : List (MessageKey H)} {includeAll : Bool}
    (h : (always Exact time).crash s) (hp : s.pending = []) :
    Safe stagingMachine (always Exact time) (fun _ _ => True) (fun _ _ => True)
      (addVisible host user visible items includeAll) s := by
  unfold addVisible
  apply Safe.bind
  refine (stagedAlready_safe h hp).post ?_ fun _ _ _ _ => trivial
  intro found t hc ht
  obtain ⟨found, existing⟩ := found
  obtain ⟨hpt, hfound⟩ := ht
  apply Safe.bind
  refine (select_safe hc items).post ?_ fun _ _ _ _ => trivial
  intro chosen u hcu hu
  obtain ⟨hsame, hchosen⟩ := hu
  dsimp only
  split
  · exact ⟨hcu, trivial⟩
  · rename_i hquota
    split
    · exact ⟨hcu, trivial⟩
    · refine stageSelected_safe hcu (hsame.pending.trans hpt) ?_
      rw [hsame.db]
      refine ⟨hchosen.nodup, ?_, ?_, ?_⟩
      · intro row hrow hlive item hitem k m hm hin heq
        cases found with
        | none => exact absurd (hfound row hrow) (not_le.mpr hlive)
        | some row' =>
            obtain rfl : row' = row := Option.some.inj (hfound.1.symm.trans hrow)
            exact hchosen.fresh item hitem (heq ▸ hfound.2.2 k m hm hin)
      · intro row hrow hlive hmax
        cases found with
        | none => exact absurd (hfound row hrow) (not_le.mpr hlive)
        | some row' =>
            obtain rfl : row' = row := Option.some.inj (hfound.1.symm.trans hrow)
            exact not_lt.mp fun hover => hquota ⟨hmax.ne', hover⟩
      · intro hnew hmax
        cases found with
        | none =>
            have hover := not_lt.mp fun hover => hquota ⟨hmax.ne', hover⟩
            simpa using hover
        | some row => exact absurd (hnew row hfound.1) (not_le.mpr hfound.2.1)

theorem addMessages_safe {orders : Orders} {items : List (MessageKey H)} {includeAll : Bool}
    (h : (always Exact time).crash s) (hp : s.pending = []) :
    Safe stagingMachine (always Exact time) (fun _ _ => True) (fun _ _ => True)
      (addMessages orders host user items includeAll) s := by
  unfold addMessages
  apply Safe.bind
  exact view_safe h (fun _ _ => addVisible_safe h hp) fun _ => trivial

/-! ### The end of a push -/

/-- The rows that the clean-up has yet to see are there, and the counter is in step. -/
structure Draining (areaId : Id) (bytesUsed : ℕ) (rest : List (Id × StagingMessage H))
    (v : StagingDb H) : Prop where
  exact' : Exact v
  area : ∃ area, v.areas.get? areaId = some area ∧ area.bytesUsed = bytesUsed
  left : ∀ row ∈ rest, v.staged.get? row.1 = some row.2 ∧ row.2.stagingId = areaId

omit [DecidableEq H] in
theorem Draining.drop {bytesUsed : ℕ} {row : Id × StagingMessage H}
    {rest : List (Id × StagingMessage H)} {v : StagingDb H}
    (h : Draining areaId bytesUsed (row :: rest) v) (hne : ∀ other ∈ rest, other.1 ≠ row.1) :
    Draining areaId (bytesUsed - row.2.sizeBytes) rest
      ((v.setBytesUsed areaId (bytesUsed - row.2.sizeBytes)).deleteMessage row.1) := by
  obtain ⟨area, harea, hbytes⟩ := h.area
  obtain ⟨hrow, hin⟩ := h.left row List.mem_cons_self
  refine ⟨?_, ⟨{ area with bytesUsed := bytesUsed - row.2.sizeBytes }, ?_, rfl⟩, ?_⟩
  · rw [← hbytes]
    exact h.exact'.dropMessage hrow hin harea
  · change (v.setBytesUsed areaId (bytesUsed - row.2.sizeBytes)).areas.get? areaId = _
    rw [get?_setBytesUsed]
    exact ⟨area, harea, (if_pos rfl).symm⟩
  · intro other ho
    obtain ⟨hget, hin'⟩ := h.left other (.tail _ ho)
    exact ⟨(get?_deleteMessage _ _).mpr ⟨hget, hne other ho⟩, hin'⟩

theorem dropPushed_safe {paths : Table String StagedPath} {bytesUsed : ℕ}
    {row : Id × StagingMessage H} {rest : List (Id × StagingMessage H)}
    (h : (always Exact time).crash s) (hne : ∀ other ∈ rest, other.1 ≠ row.1)
    (hdrain : ∀ v, s.seen = some v → Draining areaId bytesUsed (row :: rest) v) :
    Safe stagingMachine (always Exact time)
      (fun bytesUsed t => ∀ v, t.seen = some v → Draining areaId bytesUsed rest v)
      (fun _ _ => True) (dropPushed paths areaId bytesUsed row) s := by
  unfold dropPushed
  split
  · refine ⟨h, ?_⟩
    intro v hv
    have hv := hdrain v hv
    exact ⟨hv.exact', hv.area, fun other ho => hv.left other (.tail _ ho)⟩
  · rename_i path _
    apply Safe.bind
    refine (offline_safe (Prog.Only.handle (op_only rfl) fun e => ?_) h).post ?_ fun _ _ _ _ => trivial
    · cases e <;> trivial
    intro _ t hc ht
    apply Safe.bind
    refine stage_safe hc ⟨hc, ?_⟩
    intro v' hv'
    rw [Session.seen, flushed_append, Option.bind_eq_some_iff] at hv'
    obtain ⟨v, hv, hwrites⟩ := hv'
    obtain ⟨v₁, hv₁, hrest⟩ := Option.bind_eq_some_iff.mp hwrites
    obtain ⟨-, hset⟩ := Option.ite_none_right_eq_some.mp hv₁
    obtain rfl := Option.some.inj hset
    obtain rfl := Option.some.inj hrest
    exact (hdrain v (ht.seen ▸ hv)).drop hne

theorem dropAllPushed_safe {row : Id × StagingArea} {pushed : Table String StagedPath}
    (h : (always Exact time).crash s) (hp : s.pending = [])
    (hrow : s.world.db.areas.get? row.1 = some row.2) :
    Safe stagingMachine (always Exact time) (fun _ => SeesExact) (fun _ _ => True)
      (dropAllPushed row pushed) s := by
  unfold dropAllPushed
  split
  · exact ⟨h, seesExact_of_nil h.1 hp⟩
  · apply Safe.bind
    refine stagedRows_safe h ?_ fun _ => trivial
    intro rows db hseen hrows
    obtain rfl : s.world.db = db := Option.some.inj ((seen_of_nil hp).symm.trans hseen)
    have hnodup : (rows.map Prod.fst).Nodup := (hrows.map Prod.fst).nodup_iff.mpr nodup_stagedOf
    have hloop : Safe stagingMachine (always Exact time)
        (fun bytesUsed t => ∀ rest, rows = rows ++ rest →
          ∀ v, t.seen = some v → Draining row.1 bytesUsed rest v)
        (fun _ _ => True)
        (rows.foldlM (dropPushed (byPrefix pushed) row.1) row.2.bytesUsed) s := by
      refine Safe.foldlM (fun done bytesUsed t => ∀ rest, rows = done ++ rest →
        ∀ v, t.seen = some v → Draining row.1 bytesUsed rest v) rows ?_ h ?_
      · intro rest hrest v hv
        obtain rfl : rows = rest := hrest
        obtain rfl := Option.some.inj (hseen.symm.trans hv)
        exact ⟨h.1, ⟨row.2, hrow, rfl⟩, fun other ho => mem_stagedOf.mp (hrows.mem_iff.mp ho)⟩
      · intro done other rest bytesUsed t hsplit hc hinv
        have hne : ∀ next ∈ rest, next.1 ≠ other.1 := by
          rw [hsplit, List.map_append, List.nodup_append, List.map_cons, List.nodup_cons] at hnodup
          intro next hn heq
          exact hnodup.2.1.1 (List.mem_map.mpr ⟨next, hn, heq⟩)
        refine (dropPushed_safe hc hne (hinv _ hsplit)).post ?_ fun _ _ _ _ => trivial
        intro bytesUsed' u _ hu rest' hrest' v hv
        have hsame : rest = rest' := by
          rw [hsplit, List.append_assoc, List.singleton_append, List.append_cancel_left_eq]
            at hrest'
          exact (List.cons.inj hrest').2
        exact hsame ▸ hu v hv
    apply Safe.bind
    refine hloop.post ?_ fun _ _ _ _ => trivial
    intro _ t hc ht
    refine flush_safe hc ?_ fun _ _ => trivial
    exact fun v hv => (ht [] (List.append_nil _).symm v hv).exact'

theorem dropEmptyArea_safe {requester : StagingUser} {d : StagingDir}
    (h : (always Exact time).crash s) (hseen : SeesExact s) :
    Safe stagingMachine (always Exact time) (fun _ => SeesExact) (fun _ _ => True)
      (dropEmptyArea requester d areaId) s := by
  unfold dropEmptyArea
  apply Safe.bind
  refine op_safe h ?_ fun _ _ => trivial
  intro n t ht
  obtain ⟨-, rfl⟩ := machine_stagedCount.mp ht
  refine ⟨h, ?_⟩
  split
  · apply Safe.bind
    refine (offline_safe (stagedFilesRemain_offline d _) h).post ?_ fun _ _ _ _ => trivial
    intro remain t hc ht
    cases remain with
    | true => exact ⟨hc, fun v hv => hseen v (ht.seen ▸ hv)⟩
    | false =>
        apply Safe.bind
        refine (offline_safe (removeStagingDir_offline requester) hc).post ?_ fun _ _ _ _ => trivial
        intro _ u hcu hu
        exact deleteArea_safe hcu fun v hv => hseen v ((ht.trans hu).seen ▸ hv)
  · exact ⟨h, hseen⟩

theorem cleanupPushed_safe {d : StagingDir} {pushed : Table String StagedPath}
    (h : (always Exact time).crash s) (hp : s.pending = []) :
    Safe stagingMachine (always Exact time) (fun _ _ => True) (fun _ _ => True)
      (cleanupPushed user d pushed) s := by
  unfold cleanupPushed
  apply Safe.bind
  refine view_safe h ?_ fun _ => trivial
  intro db hseen
  obtain rfl : s.world.db = db := Option.some.inj ((seen_of_nil hp).symm.trans hseen)
  cases hrow : areaOf s.world.db user.id with
  | none => exact ⟨h, trivial⟩
  | some row =>
      apply Safe.bind
      refine (dropAllPushed_safe h hp (areaOf_eq_some.mp hrow).1).post ?_ fun _ _ _ _ => trivial
      intro _ t hc ht
      apply Safe.bind
      refine (dropEmptyArea_safe hc ht).post ?_ fun _ _ _ _ => trivial
      intro _ u hcu hu
      exact (commit_exact_safe hcu hu).post (fun _ _ _ _ => trivial) fun _ _ _ _ => trivial

/-! ### The end of an area -/

theorem empty_safe (h : (always Exact time).crash s) (hp : s.pending = []) :
    Safe stagingMachine (always Exact time) (fun _ _ => True) (fun _ _ => True)
      (Staging.empty user) s := by
  unfold Staging.empty
  apply Safe.bind
  refine view_safe h ?_ fun _ => trivial
  intro db hseen
  obtain rfl : s.world.db = db := Option.some.inj ((seen_of_nil hp).symm.trans hseen)
  apply Safe.bind
  refine (offline_safe (removeStagingDir_offline user) h).post ?_ fun _ _ _ _ => trivial
  intro _ t hc ht
  split
  · exact ⟨hc, trivial⟩
  · rename_i row _
    apply Safe.bind
    refine (deleteArea_safe hc (seesExact_of_nil hc.1 (ht.pending.trans hp))).post ?_
      fun _ _ _ _ => trivial
    intro _ u hcu hu
    exact (commit_exact_safe hcu hu).post (fun _ _ _ _ => trivial) fun _ _ _ _ => trivial

theorem purge_safe {row : Id × StagingArea} (h : (always Exact time).crash s)
    (hseen : SeesExact s) :
    Safe stagingMachine (always Exact time) (fun _ => SeesExact) (fun _ _ => True) (purge row) s := by
  unfold purge
  apply Safe.bind
  refine view_safe h ?_ fun _ => trivial
  intro db _
  split
  · exact deleteArea_safe h hseen
  · rename_i owner _
    apply Safe.bind
    refine (offline_safe (removeStagingDir_offline owner) h).post ?_ fun _ _ _ _ => trivial
    exact fun _ t hc ht => deleteArea_safe hc fun v hv => hseen v (ht.seen ▸ hv)

theorem cleanupExpired_safe (h : (always Exact time).crash s) (hp : s.pending = []) :
    Safe stagingMachine (always Exact time) (fun _ _ => True) (fun _ _ => True)
      (cleanupExpired : StagingTask H ℕ) s := by
  unfold cleanupExpired
  apply Safe.bind
  refine now_safe h ?_
  apply Safe.bind
  refine expiredAreas_safe h ?_ fun _ => trivial
  intro expired db _ _
  apply Safe.bind
  have hloop : Safe stagingMachine (always Exact time) (fun _ => SeesExact) (fun _ _ => True)
      (expired.forM purge) s :=
    Safe.forM (fun _ => SeesExact) expired (seesExact_of_nil h.1 hp) h
      fun _ _ _ _ _ hc hinv => purge_safe hc hinv
  refine hloop.post ?_ fun _ _ _ _ => trivial
  intro _ t hc ht
  apply Safe.bind
  refine (commit_exact_safe hc ht).post ?_ fun _ _ _ _ => trivial
  exact fun _ u hcu _ => ⟨hcu, trivial⟩

/-! ### The push -/

theorem createRestoreJob_safe {job : RestoreJob} (h : (always Exact time).crash s)
    (hp : s.pending = []) :
    Safe stagingMachine (always Exact time) (fun _ t => t.pending = []) (fun _ _ => True)
      (createRestoreJob job) s := by
  unfold createRestoreJob
  apply Safe.bind
  refine view_safe h ?_ fun _ => trivial
  intro db _
  cases takesRestore db job.sourceAccountId job.targetAccountId with
  | false => exact ⟨h, hp⟩
  | true =>
      apply Safe.bind
      refine newId_safe h ?_
      intro jobId _
      apply Safe.bind
      refine stage_safe h ?_
      have hseen : SeesExact { s with pending := s.pending ++ [.insertRestore jobId job] } := by
        intro v' hv'
        rw [Session.seen, flushed_append, Option.bind_eq_some_iff] at hv'
        obtain ⟨v, hv, hwrite⟩ := hv'
        obtain ⟨v₁, hv₁, hend⟩ := Option.bind_eq_some_iff.mp hwrite
        obtain rfl := Option.some.inj hend
        have hexact := seesExact_of_nil h.1 hp v hv
        simp only [StagingWrite.apply] at hv₁
        split at hv₁
        · obtain rfl := Option.some.inj hv₁
          exact ⟨hexact.oneRow, hexact.bytes, hexact.quota⟩
        · cases hv₁
      have hc : (always Exact time).crash
          { s with pending := s.pending ++ [.insertRestore jobId job] } := h
      apply Safe.bind
      refine (commit_exact_safe hc hseen).post ?_ fun _ _ _ _ => trivial
      intro _ t hct ht
      apply Safe.bind
      exact view_safe hct (fun _ _ => ⟨hct, ht⟩) fun _ => trivial

theorem pushTarget_safe {result : PushResult} {target : Id × Manifest}
    (h : (always Exact time).crash s) (hp : s.pending = []) :
    Safe stagingMachine (always Exact time) (fun _ t => t.pending = []) (fun _ _ => True)
      (pushTarget user result target) s := by
  unfold pushTarget
  apply Safe.bind
  refine (createRestoreJob_safe h hp).post ?_ fun _ _ _ _ => trivial
  intro created t hc ht
  cases created with
  | none => exact ⟨hc, ht⟩
  | some jobId =>
      apply Safe.bind
      refine (offline_safe (op_only rfl) hc).post ?_ fun _ _ _ _ => trivial
      exact fun _ u hcu hu => ⟨hcu, hu.pending.trans ht⟩

theorem push_safe {destination folderMode : String} {customFolder : Option String}
    (h : (always Exact time).crash s) (hp : s.pending = []) :
    Safe stagingMachine (always Exact time) (fun _ _ => True) (fun _ _ => True)
      (push host user destination folderMode customFolder) s := by
  unfold push
  split
  · exact ⟨h, trivial⟩
  · apply Safe.bind
    refine view_safe h ?_ fun _ => trivial
    intro db hseen
    obtain rfl : s.world.db = db := Option.some.inj ((seen_of_nil hp).symm.trans hseen)
    cases hrow : areaOf s.world.db user.id with
    | none => exact ⟨h, trivial⟩
    | some row =>
        apply Safe.bind
        refine isExpired_safe h ?_
        cases decide (row.2.expiresAt ≤ time) with
        | true => exact ⟨h, trivial⟩
        | false =>
            apply Safe.bind
            refine (reconcile_safe h hp (areaOf_eq_some.mp hrow).1).post ?_ fun _ _ _ _ => trivial
            intro _ t hc ht
            apply Safe.bind
            refine stagedRows_safe hc ?_ fun _ => trivial
            intro rows _ _ _
            cases rows with
            | nil => exact ⟨hc, trivial⟩
            | cons first rest =>
                apply Safe.bind
                refine now_safe hc ?_
                refine (Safe.foldlM (fun _ _ t => t.pending = []) _ ht.1 hc ?_).post
                  (fun _ _ _ _ => trivial) fun _ _ _ h => h
                exact fun _ _ _ _ _ _ hcu hu => pushTarget_safe hcu hu

theorem apiStagingPush_safe {req : PushRequest} (h : (always Exact time).crash s)
    (hp : s.pending = []) :
    Safe stagingMachine (always Exact time) (fun _ _ => True) (fun _ _ => True)
      (apiStagingPush host user req) s := by
  unfold apiStagingPush
  split
  · exact ⟨h, trivial⟩
  · split
    · exact ⟨h, trivial⟩
    · apply Safe.bind
      refine view_safe h ?_ fun _ => trivial
      intro db _
      split
      · exact ⟨h, trivial⟩
      · exact push_safe h hp

/-! ## Runs -/

theorem withUser_safe {userId : Id} {p : StagingUser → StagingTask H Unit}
    (h : (always Exact time).crash s)
    (hall : ∀ user, Safe stagingMachine (always Exact time) (fun _ _ => True) (fun _ _ => True)
      (p user) s) :
    Safe stagingMachine (always Exact time) (fun _ _ => True) (fun _ _ => True)
      (withUser userId p) s := by
  unfold withUser
  apply Safe.bind
  refine view_safe h ?_ fun _ => trivial
  intro db _
  split
  · exact ⟨h, trivial⟩
  · exact hall _

/-- The result of an operation is not looked at. -/
theorem discard_safe {α : Type} {p : StagingTask H α}
    (h : Safe stagingMachine (always Exact time) (fun _ _ => True) (fun _ _ => True) p s) :
    Safe stagingMachine (always Exact time) (fun _ _ => True) (fun _ _ => True)
      (do
        let _ ← p
        pure ()) s := by
  apply Safe.bind
  exact h.post (fun _ _ hc _ => ⟨hc, trivial⟩) fun _ _ _ _ => trivial

theorem program_safe {orders : Orders} (o : Operation H) (h : (always Exact time).crash s)
    (hp : s.pending = []) :
    Safe stagingMachine (always Exact time) (fun _ _ => True) (fun _ _ => True)
      (o.program orders host) s := by
  cases o with
  | add userId items includeAll =>
      exact withUser_safe h fun user => discard_safe (addMessages_safe h hp)
  | status userId => exact withUser_safe h fun user => discard_safe (getStatus_safe h hp)
  | push userId req => exact withUser_safe h fun user => discard_safe (apiStagingPush_safe h hp)
  | cleanup userId pushed => exact withUser_safe h fun user => cleanupPushed_safe h hp
  | empty userId => exact withUser_safe h fun user => empty_safe h hp
  | expire => exact discard_safe (cleanupExpired_safe h hp)

/-- One step keeps the accounts exact. -/
theorem exact_step {orders : Orders} {w w' : World H} {e : StagingEvent H} (h : Exact w.db)
    (hstep : StagingSteps orders host w e w') : Exact w'.db := by
  cases e with
  | operation o =>
      obtain ⟨tr, p, t, hrun, rfl⟩ := hstep
      have hsafe : Safe stagingMachine (always Exact w.now) (fun _ _ => True) (fun _ _ => True)
          (o.program orders host) ⟨w, []⟩ := program_safe o ⟨h, rfl⟩ rfl
      exact (hsafe.run hrun).crash.1
  | flag d sub name name' =>
      obtain ⟨-, rfl⟩ := hstep
      exact h
  | expunge p =>
      obtain rfl := hstep
      exact h
  | rights change =>
      obtain rfl := hstep
      exact ⟨h.oneRow, h.bytes, h.quota⟩
  | pass elapsed =>
      obtain rfl := hstep
      exact h

end Services

/-- After every operation a user has at most one area, an area has at most one row for a message,
and its counter is the sum of the sizes of its rows, within the limit if there is one. -/
theorem staging_accounting_exact [DecidableEq H] {orders : Orders} {host : Host H} {w w' : World H}
    (h₀ : Exact w.db) (hrun : Follows (StagingSteps orders host) (fun _ _ => True) w w') :
    (∀ i j a b, w'.db.areas.get? i = some a → w'.db.areas.get? j = some b →
      a.userId = b.userId → i = j) ∧
    (∀ i j m n, w'.db.staged.get? i = some m → w'.db.staged.get? j = some n →
      m.stagingId = n.stagingId → m.sourceAccountId = n.sourceAccountId →
      m.messageIdHash = n.messageIdHash → i = j) ∧
    (∀ i area, w'.db.areas.get? i = some area →
      area.bytesUsed = ((stagedOf w'.db i).map fun row => row.2.sizeBytes).sum) ∧
    (∀ i area, w'.db.areas.get? i = some area → 0 < area.maxBytes →
      (area.bytesUsed : ℤ) ≤ area.maxBytes) := by
  have hexact : Exact w'.db :=
    hrun.invariant h₀ fun _ _ _ h _ hstep => exact_step h hstep
  refine ⟨w'.db.areaUsers, ?_, ?_, hexact.quota⟩
  · intro i j m n hi hj hin haccount hhash
    exact hexact.oneRow i j m n hi hj hin (Prod.ext haccount hhash)
  · intro i area hi
    rw [hexact.bytes i area hi, areaBytes_eq_sum]

theorem sample_accounting :
    ∃ w', Follows (StagingSteps Access.sampleOrders sampleHost) (fun _ _ => True) sampleWorld w' ∧
      ∃ i area, w'.db.areas.get? i = some area ∧
        area.bytesUsed = ((stagedOf w'.db i).map fun row => row.2.sizeBytes).sum ∧
        stagedOf w'.db i ≠ [] := by
  obtain ⟨w', hstep, hstaged⟩ := sample_add Access.sampleOrders
    (f := fun w => w.db.areas.rows.any fun row => !(stagedOf w.db row.1).isEmpty) (by decide +kernel)
  have hrun : Follows (StagingSteps Access.sampleOrders sampleHost) (fun _ _ => True)
      sampleWorld w' := .step .refl trivial hstep
  have hstart : Exact sampleWorld.db := ⟨nofun, nofun, nofun⟩
  obtain ⟨-, -, hbytes, -⟩ := staging_accounting_exact hstart hrun
  obtain ⟨⟨i, area⟩, hmem, hrows⟩ := List.any_eq_true.mp hstaged
  have harea := Table.mem_rows.mp hmem
  exact ⟨w', hrun, i, area, harea, hbytes i area harea, by simpa using hrows⟩

end MailFallback.Staging
