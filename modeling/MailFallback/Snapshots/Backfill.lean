import MailFallback.Snapshots.Semantics
import Mathlib.Data.List.Dedup
import Mathlib.Data.List.Induction

/-! # When a backfill leaves exact bits

A snapshot with a row of the account is taken for processed, so its rows stay what they were.
Of the others a backfill writes the bits, for one message of those that share a prefix. -/

namespace MailFallback.Snapshots

open Storage PyString Index

variable {H : Type*} [DecidableEq H] {bits rows : List (SnapshotMessage H)}
  {r : SnapshotMessage H}

@[simp] theorem mem_insertIgnore : r ∈ insertIgnore bits rows ↔ r ∈ bits ∨ r ∈ rows := by
  induction rows generalizing bits with
  | nil => simp [insertIgnore]
  | cons row rows ih =>
      have hcons : insertIgnore bits (row :: rows) =
          insertIgnore (if row ∈ bits then bits else bits ++ [row]) rows := rfl
      rw [hcons, ih, List.mem_cons]
      by_cases hrow : row ∈ bits
      · rw [if_pos hrow]
        constructor
        · exact fun h => h.imp_right Or.inr
        · intro h
          cases h with
          | inl h => exact .inl h
          | inr h => cases h with
            | inl h => exact .inl (h ▸ hrow)
            | inr h => exact .inr h
      · rw [if_neg hrow, List.mem_append, List.mem_singleton, or_assoc]

omit [DecidableEq H] in
theorem mem_alreadyDone {accountId : Id} {sid : String} :
    sid ∈ alreadyDone accountId bits ↔ ∃ h, ⟨sid, accountId, h⟩ ∈ bits := by
  simp only [alreadyDone, List.mem_dedup, List.mem_map, List.mem_filter, decide_eq_true_eq]
  constructor
  · intro h
    obtain ⟨row, ⟨hrow, haccount⟩, hsid⟩ := h
    exact ⟨row.messageIdHash, by rw [← haccount, ← hsid]; exact hrow⟩
  · intro h
    obtain ⟨hash, hrow⟩ := h
    exact ⟨_, ⟨hrow, rfl⟩, rfl⟩

/-! ## The lookup by prefix -/

section Lookup

omit [DecidableEq H]

variable {alive : List (H × MessageRow)} {p : String} {h : H}

theorem prefixToHash_append (alive : List (H × MessageRow)) (row : H × MessageRow) :
    prefixToHash (alive ++ [row]) =
      (prefixToHash alive).set (maildirFilenamePrefix row.2.maildirFilename) row.1 := by
  simp [prefixToHash]

/-- What the lookup finds is an alive message with that prefix. -/
theorem mem_of_prefixToHash (hfound : (prefixToHash alive).get? p = some h) :
    ∃ row, (h, row) ∈ alive ∧ maildirFilenamePrefix row.maildirFilename = p := by
  induction alive using List.reverseRecOn with
  | nil => simp [prefixToHash] at hfound
  | append_singleton alive row ih =>
      rw [prefixToHash_append, Table.get?_set] at hfound
      by_cases hp : p = maildirFilenamePrefix row.2.maildirFilename
      · rw [if_pos hp] at hfound
        have hrow : row.1 = h := Option.some.inj hfound
        exact ⟨row.2, by simp [← hrow], hp.symm⟩
      · rw [if_neg hp] at hfound
        obtain ⟨found, hmem, hprefix⟩ := ih hfound
        exact ⟨found, List.mem_append_left _ hmem, hprefix⟩

/-- The lookup finds something for every prefix of an alive message. -/
theorem prefixToHash_of_mem {row : MessageRow} (hrow : (h, row) ∈ alive) :
    ∃ h', (prefixToHash alive).get? (maildirFilenamePrefix row.maildirFilename) = some h' := by
  induction alive using List.reverseRecOn with
  | nil => simp at hrow
  | append_singleton alive last ih =>
      rw [prefixToHash_append, Table.get?_set]
      by_cases hp : maildirFilenamePrefix row.maildirFilename =
          maildirFilenamePrefix last.2.maildirFilename
      · exact ⟨last.1, if_pos hp⟩
      · rw [if_neg hp]
        have hne : (h, row) ≠ last := by
          intro heq
          exact hp (by rw [← heq])
        refine ih ?_
        simpa [hne] using hrow

end Lookup

/-! ## The files of a listing -/

/-- The name of the directory in which a file lies. -/
def directoryName (path : String) : String :=
  basename (String.ofList (path.toList.reverse.dropWhile fun c => c ≠ '/').tail.reverse)

/-- A file of a `cur` or `new` directory. -/
def InCurOrNew (path : String) : Prop :=
  directoryName path = "cur" ∨ directoryName path = "new"

instance (path : String) : Decidable (InCurOrNew path) :=
  inferInstanceAs (Decidable (_ ∨ _))

/-- The listing holds a message file with that prefix. -/
def Holds (paths : List String) (p : String) : Prop :=
  ∃ path ∈ paths, InCurOrNew path ∧ maildirFilenamePrefix (basename path) = p

/-- The backfill takes a file of the listing for a message file with that prefix. -/
def Counts (paths : List String) (p : String) : Prop :=
  ∃ path ∈ paths, passesCurOrNew path = true ∧ maildirFilenamePrefix (basename path) = p

instance (paths : List String) (p : String) : Decidable (Holds paths p) :=
  inferInstanceAs (Decidable (∃ path ∈ paths, _))

instance (paths : List String) (p : String) : Decidable (Counts paths p) :=
  inferInstanceAs (Decidable (∃ path ∈ paths, _))

theorem mem_seenHashes {lookup : Table String H} {paths : List String} {h : H} :
    h ∈ seenHashes lookup paths ↔ ∃ p, Counts paths p ∧ lookup.get? p = some h := by
  induction paths using List.reverseRecOn with
  | nil => simp [seenHashes, Counts]
  | append_singleton paths path ih =>
      unfold seenHashes at ih ⊢
      have hcounts : ∀ p, Counts (paths ++ [path]) p ↔ Counts paths p ∨
          passesCurOrNew path = true ∧ maildirFilenamePrefix (basename path) = p := by
        intro p
        simp [Counts, or_and_right, exists_or]
      rw [List.foldl_append, List.foldl_cons, List.foldl_nil]
      simp only [hcounts, or_and_right, exists_or]
      rw [← ih]
      generalize List.foldl _ _ paths = seen
      by_cases hpasses : passesCurOrNew path = true
      · cases hfound : lookup.get? (maildirFilenamePrefix (basename path)) with
        | none => simp [hpasses, hfound]
        | some found => simp [hpasses, hfound, List.mem_insert_iff, or_comm, eq_comm]
      · simp [hpasses]

/-! ## The loop -/

section Loop

variable {restic : Restic} {accountId : Id} {lookup : Table String H} {done : List String}
  {total : ℕ}

/-- The bits written for one listed snapshot. -/
def Written (restic : Restic) (accountId : Id) (lookup : Table String H) (done : List String)
    (s : SnapshotEntry) (r : SnapshotMessage H) : Prop :=
  (s.sid ≠ "" ∧ s.sid ∉ done) ∧ r.snapshotId = s.sid ∧ r.accountId = accountId ∧
    r.messageIdHash ∈ seenHashes lookup (restic.listing s.sid)

theorem Restic.listFiles_ok {sid : String} {paths : List String}
    (h : restic.listFiles sid = .ok paths) : paths = restic.listing sid := by
  unfold Restic.listFiles at h
  split at h
  · cases h
  · exact (Except.ok.inj h).symm

/-- The loop adds the bits of the snapshots before one whose listing raises. -/
theorem backfillLoop_prefix (i : ℕ) (snaps : List SnapshotEntry) (b : Backfill H) :
    ∃ reached, reached <+: snaps ∧
      ((backfillLoop restic accountId lookup done total i snaps b).raised = none →
        reached = snaps) ∧
      ∀ r, r ∈ (backfillLoop restic accountId lookup done total i snaps b).bits ↔
        r ∈ b.bits ∨ ∃ s ∈ reached, Written restic accountId lookup done s r := by
  induction snaps generalizing i b with
  | nil => exact ⟨[], List.prefix_rfl, fun _ => rfl, fun r => by simp [backfillLoop]⟩
  | cons s snaps ih =>
      rw [backfillLoop]
      by_cases hempty : s.sid = ""
      · have hnone : ∀ r, ¬ Written restic accountId lookup done s r := fun r h => h.1.1 hempty
        simp only [if_pos hempty]
        obtain ⟨reached, hprefix, hall, hbits⟩ := ih (i + 1) b
        refine ⟨s :: reached, List.cons_prefix_cons.mpr ⟨rfl, hprefix⟩,
          fun h => by rw [hall h], fun r => ?_⟩
        simp [hbits, hnone]
      · simp only [if_neg hempty]
        by_cases hdone : s.sid ∈ done
        · have hnone : ∀ r, ¬ Written restic accountId lookup done s r := fun r h => h.1.2 hdone
          simp only [if_pos hdone]
          obtain ⟨reached, hprefix, hall, hbits⟩ := ih (i + 1)
            (b.yield ⟨s.sid, total, i + 1, 0, true⟩)
          refine ⟨s :: reached, List.cons_prefix_cons.mpr ⟨rfl, hprefix⟩,
            fun h => by rw [hall h], fun r => ?_⟩
          rw [hbits]
          simp [hnone, Backfill.yield]
        · simp only [if_neg hdone]
          cases hfiles : restic.listFiles s.sid with
          | error e => exact ⟨[], List.nil_prefix, nofun, fun r => by simp⟩
          | ok paths =>
              obtain ⟨reached, hprefix, hall, hbits⟩ := ih (i + 1) _
              refine ⟨s :: reached, List.cons_prefix_cons.mpr ⟨rfl, hprefix⟩,
                fun h => by rw [hall h], fun r => ?_⟩
              have hpaths := Restic.listFiles_ok hfiles
              have hwritten : r ∈ (seenHashes lookup paths).map (fun h => ⟨s.sid, accountId, h⟩) ↔
                  Written restic accountId lookup done s r := by
                rw [List.mem_map, hpaths]
                constructor
                · intro h
                  obtain ⟨hash, hseen, rfl⟩ := h
                  exact ⟨⟨hempty, hdone⟩, rfl, rfl, hseen⟩
                · intro h
                  obtain ⟨-, hsid, haccount, hseen⟩ := h
                  exact ⟨r.messageIdHash, hseen, by rw [← hsid, ← haccount]⟩
              rw [hbits]
              simp only [Backfill.yield, mem_insertIgnore, hwritten, List.mem_cons,
                exists_eq_or_imp, or_assoc]

end Loop

/-! ## Exact bits -/

variable (restic : Restic) (accountId : Id) (index : MailIndex H)

/-- The bits of the alive messages under the id of a snapshot are those its files ask for. -/
def RightBits (bits : List (SnapshotMessage H)) (s : SnapshotEntry) : Prop :=
  ∀ row ∈ aliveMessages index, ⟨s.sid, accountId, row.1⟩ ∈ bits ↔
    Holds (restic.listing s.sid) (maildirFilenamePrefix row.2.maildirFilename)

instance (bits : List (SnapshotMessage H)) (s : SnapshotEntry) :
    Decidable (RightBits restic accountId index bits s) :=
  inferInstanceAs (Decidable (∀ row ∈ aliveMessages index, _))

/-- No id to write bits under, or a row of the account under that id. -/
def Skipped (bits : List (SnapshotMessage H)) (s : SnapshotEntry) : Prop :=
  s.sid = "" ∨ ∃ h, ⟨s.sid, accountId, h⟩ ∈ bits

/-- The files of the snapshot tell the alive messages apart by their prefixes, and files below
a `cur` or `new` directory but not in it bring no further prefix. -/
def Separates (s : SnapshotEntry) : Prop :=
  ∀ row ∈ aliveMessages index,
    (Counts (restic.listing s.sid) (maildirFilenamePrefix row.2.maildirFilename) →
      Holds (restic.listing s.sid) (maildirFilenamePrefix row.2.maildirFilename)) ∧
    (Holds (restic.listing s.sid) (maildirFilenamePrefix row.2.maildirFilename) →
      Counts (restic.listing s.sid) (maildirFilenamePrefix row.2.maildirFilename) ∧
      ∀ row' ∈ aliveMessages index,
        maildirFilenamePrefix row'.2.maildirFilename =
          maildirFilenamePrefix row.2.maildirFilename → row'.1 = row.1)

/-- What a backfill needs of the state it starts in. -/
def ReadyFor (bits : List (SnapshotMessage H)) (s : SnapshotEntry) : Prop :=
  (Skipped accountId bits s → RightBits restic accountId index bits s) ∧
    (¬ Skipped accountId bits s → Separates restic index s)

variable {restic accountId index}

/-- Listed twice, a snapshot is written as if it were listed once. -/
theorem exists_written {lookup : Table String H} {done : List String}
    {snaps : List SnapshotEntry} {s : SnapshotEntry} (hs : s ∈ snaps) (h : H) :
    (∃ s' ∈ snaps, Written restic accountId lookup done s' ⟨s.sid, accountId, h⟩) ↔
      Written restic accountId lookup done s ⟨s.sid, accountId, h⟩ := by
  constructor
  · intro hwritten
    obtain ⟨s', -, hnew, hsid, haccount, hseen⟩ := hwritten
    have hsid : s.sid = s'.sid := hsid
    unfold Written
    rw [hsid]
    exact ⟨hnew, rfl, haccount, hseen⟩
  · exact fun hwritten => ⟨s, hs, hwritten⟩

theorem aliveMessages_inj {h : H} {row row' : MessageRow}
    (hrow : (h, row) ∈ aliveMessages index) (hrow' : (h, row') ∈ aliveMessages index) :
    row = row' := by
  have hget := Table.mem_rows.mp (List.mem_filter.mp hrow).1
  have hget' := Table.mem_rows.mp (List.mem_filter.mp hrow').1
  exact Option.some.inj (hget.symm.trans hget')

theorem written_iff {s : SnapshotEntry} {row : H × MessageRow}
    (hskipped : ¬ Skipped accountId bits s) (hrow : row ∈ aliveMessages index) :
    Written restic accountId (prefixToHash (aliveMessages index)) (alreadyDone accountId bits) s
        ⟨s.sid, accountId, row.1⟩ ↔
      Counts (restic.listing s.sid) (maildirFilenamePrefix row.2.maildirFilename) ∧
        (prefixToHash (aliveMessages index)).get? (maildirFilenamePrefix row.2.maildirFilename) =
          some row.1 := by
  have hnew : s.sid ≠ "" ∧ s.sid ∉ alreadyDone accountId bits := by
    rw [mem_alreadyDone]
    exact not_or.mp hskipped
  simp only [Written, hnew, ne_eq, not_false_eq_true, and_self, true_and, mem_seenHashes]
  constructor
  · intro h
    obtain ⟨p, hcounts, hfound⟩ := h
    obtain ⟨found, hmem, hprefix⟩ := mem_of_prefixToHash hfound
    rw [← aliveMessages_inj hmem hrow, hprefix]
    exact ⟨hcounts, hfound⟩
  · exact fun h => ⟨_, h⟩

/-- The bits that the backfill writes for a snapshot are right when its files tell the alive
messages apart, and only then. -/
theorem written_right_iff {s : SnapshotEntry} (hskipped : ¬ Skipped accountId bits s) :
    (∀ row ∈ aliveMessages index,
      (Written restic accountId (prefixToHash (aliveMessages index)) (alreadyDone accountId bits) s
          ⟨s.sid, accountId, row.1⟩ ↔
        Holds (restic.listing s.sid) (maildirFilenamePrefix row.2.maildirFilename))) ↔
      Separates restic index s := by
  constructor
  · intro hright row hrow
    obtain ⟨h', hfound⟩ := prefixToHash_of_mem (show (row.1, row.2) ∈ aliveMessages index from hrow)
    obtain ⟨kept, hkept, hprefix⟩ := mem_of_prefixToHash hfound
    constructor
    · -- The bit of the message that the lookup keeps stands for the whole prefix.
      intro hcounts
      have hbit := (hright (h', kept) hkept).mp
      rw [written_iff hskipped hkept, hprefix] at hbit
      exact hbit ⟨hcounts, hfound⟩
    · intro hholds
      have hbit := (hright row hrow).mpr hholds
      rw [written_iff hskipped hrow] at hbit
      refine ⟨hbit.1, fun row' hrow' hsame => ?_⟩
      have hbit' := (hright row' hrow').mpr (by rwa [hsame])
      rw [written_iff hskipped hrow', hsame] at hbit'
      exact Option.some.inj (hbit'.2.symm.trans hbit.2)
  · intro hseparates row hrow
    rw [written_iff hskipped hrow]
    obtain ⟨hcounted, hheld⟩ := hseparates row hrow
    constructor
    · exact fun h => hcounted h.1
    · intro hholds
      obtain ⟨hcounts, hunique⟩ := hheld hholds
      obtain ⟨h', hfound⟩ := prefixToHash_of_mem (show (row.1, row.2) ∈ aliveMessages index from hrow)
      obtain ⟨kept, hkept, hprefix⟩ := mem_of_prefixToHash hfound
      have hsame : h' = row.1 := hunique (h', kept) hkept hprefix
      exact ⟨hcounts, by rw [hfound, hsame]⟩

/-- What a backfill leaves. -/
theorem backfillSnapshots_bits {db : BackupDb} {snaps : List SnapshotEntry} {b : Backfill H}
    (hsnaps : restic.snapshots = .ok snaps)
    (hrun : backfillSnapshots db restic accountId index bits = .ok b) :
    ∃ reached, reached <+: snaps ∧ (b.raised = none → reached = snaps) ∧
      ∀ r, r ∈ b.bits ↔ r ∈ bits ∨ ∃ s ∈ reached, Written restic accountId
        (prefixToHash (aliveMessages index)) (alreadyDone accountId bits) s r := by
  unfold backfillSnapshots at hrun
  split at hrun
  · rw [hsnaps] at hrun
    obtain rfl := Except.ok.inj hrun
    exact backfillLoop_prefix _ _ _
  · cases hrun

/-- A backfill that comes to its end leaves right bits for every listed snapshot in exactly
these cases. -/
theorem backfillSnapshots_exact_iff {db : BackupDb} {snaps : List SnapshotEntry} {b : Backfill H}
    (hsnaps : restic.snapshots = .ok snaps)
    (hrun : backfillSnapshots db restic accountId index bits = .ok b) (hend : b.raised = none) :
    (∀ s ∈ snaps, RightBits restic accountId index b.bits s) ↔
      ∀ s ∈ snaps, ReadyFor restic accountId index bits s := by
  obtain ⟨reached, -, hall, hbits⟩ := backfillSnapshots_bits hsnaps hrun
  obtain rfl := hall hend
  refine forall₂_congr fun s hs => ?_
  unfold RightBits ReadyFor
  simp only [hbits, exists_written hs]
  by_cases hskipped : Skipped accountId bits s
  · have hnone : ∀ h, ¬ Written restic accountId (prefixToHash (aliveMessages index))
        (alreadyDone accountId bits) s ⟨s.sid, accountId, h⟩ := by
      intro h hwritten
      exact hskipped.elim hwritten.1.1 fun hrow => hwritten.1.2 (mem_alreadyDone.mpr hrow)
    simp [hskipped, hnone, RightBits]
  · have hfree : ∀ h, (⟨s.sid, accountId, h⟩ : SnapshotMessage H) ∉ bits :=
      fun h hrow => hskipped (.inr ⟨h, hrow⟩)
    simp only [hskipped, false_implies, not_false_eq_true, true_implies, true_and, hfree,
      false_or]
    exact written_right_iff hskipped

/-! ## A message indexed after the first backfill -/

section Sample

def sampleRow (filename : String) : MessageRow where
  messageId := filename
  folderPath := "INBOX"
  maildirFilename := filename
  firstSeenAt := 0
  lastSeenAt := 0

/-- One message is indexed. -/
def earlyIndex : MailIndex ℕ := { messages := Table.empty.set 1 (sampleRow "1.M1.host:2,S") }

/-- A second one is. -/
def lateIndex : MailIndex ℕ :=
  { messages := earlyIndex.messages.set 2 (sampleRow "2.M2.host:2,") }

def sampleSnapshot : SnapshotEntry := { shortId := some "a1b2c3d4" }

/-- The snapshot holds both. -/
def sampleRestic : Restic where
  snapshots := .ok [sampleSnapshot]
  listing := fun _ => ["/mail/ada/cur/1.M1.host:2,RS", "/mail/ada/cur/2.M2.host:2,"]

def samplePolicies : BackupDb := { policies := Table.empty.set "policy" { accountId := "ada" } }

/-- A second backfill skips the snapshot for the bit that the first one wrote. -/
theorem backfillSnapshots_skips_later_message :
    ∃ first second, backfillSnapshots samplePolicies sampleRestic "ada" earlyIndex [] = .ok first ∧
      first.raised = none ∧
      backfillSnapshots samplePolicies sampleRestic "ada" lateIndex first.bits = .ok second ∧
      second.raised = none ∧
      ¬ ∀ s ∈ [sampleSnapshot], RightBits sampleRestic "ada" lateIndex second.bits s := by
  refine ⟨_, _, rfl, rfl, rfl, rfl, ?_⟩
  decide +kernel

/-- On an empty table the backfill writes both bits. -/
theorem sample_backfillSnapshots_exact :
    ∃ b, backfillSnapshots samplePolicies sampleRestic "ada" lateIndex [] = .ok b ∧
      (∀ s ∈ [sampleSnapshot], RightBits sampleRestic "ada" lateIndex b.bits s) ∧
      ∀ s ∈ [sampleSnapshot], ReadyFor sampleRestic "ada" lateIndex [] s := by
  have hrun : backfillSnapshots samplePolicies sampleRestic "ada" lateIndex [] = .ok _ := rfl
  have hexact := backfillSnapshots_exact_iff rfl hrun rfl
  refine ⟨_, hrun, ?_⟩
  rw [← hexact, and_self]
  decide +kernel

end Sample

end MailFallback.Snapshots
