import MailFallback.Library.Exceptions
import MailFallback.Snapshots.Renames
import MailFallback.Staging.Accounting
import MailFallback.Staging.System

/-! # Additions that are turned away

`add_messages` looks at all the items, and at the quota, before it makes anything. Until then a
live area has been reconciled, and nothing else has happened. -/

namespace MailFallback.Staging

open Storage Effects Index Snapshots Access Search StagingTask

variable {H : Type} {db v : StagingDb H} {areaId : Id} {user : StagingUser}

/-! ## What reconciliation may change -/

/-- A file of this name is in `cur` or in `new`. -/
def Lies (disk : Maildirs) (d : StagingDir) (name : String) : Prop :=
  ∃ sub ∈ [Sub.cur, .new], (disk.file? ⟨d, sub, name⟩).isSome = true

/-- The directory of the old name becomes the staging directory where there is none, or nothing
happens. -/
def Adopts (user : StagingUser) (disk disk' : Maildirs) : Prop :=
  disk' = disk ∨ disk.isdir (stagingDir user) = false ∧
    disk.rename (preRenameStagingDir user) (stagingDir user) = some disk'

/-- What `reconcile` does to a world: rows of the area whose file is gone are dropped, others get
the present name of their file, and the counter of the area becomes what its rows add up to. -/
structure Tidied (user : StagingUser) (areaId : Id) (w w' : World H) : Prop where
  adopts : Adopts user w.disk w'.disk
  areas : ∀ id, w'.db.areas.get? id = w.db.areas.get? id ∨
    id = areaId ∧ ∃ area, w.db.areas.get? id = some area ∧
      w'.db.areas.get? id = some { area with bytesUsed := areaBytes w'.db areaId }
  dropped : ∀ id m, w.db.staged.get? id = some m → w'.db.staged.get? id = none →
    m.stagingId = areaId ∧ ∀ name, Lies w'.disk (stagingDir user) name →
      maildirFilenamePrefix name ≠ maildirFilenamePrefix m.stagedFilename
  kept : ∀ id m', w'.db.staged.get? id = some m' → ∃ m, w.db.staged.get? id = some m ∧
    (m' = m ∨ m.stagingId = areaId ∧ ∃ name, Lies w'.disk (stagingDir user) name ∧
      maildirFilenamePrefix name = maildirFilenamePrefix m.stagedFilename ∧
      m' = { m with stagedFilename := name })
  restores : w'.db.restores = w.db.restores
  index : w'.db.toSearchDb = w.db.toSearchDb
  now : w'.now = w.now
  cancelFlags : w'.cancelFlags = w.cancelFlags
  submitted : w'.submitted = w.submitted

/-- Nothing has changed, but for the reconciliation of the live area of the user. -/
def OnlyTidied (user : StagingUser) (w w' : World H) : Prop :=
  w' = w ∨ ∃ area, areaOf w.db user.id = some area ∧ w.now < area.2.expiresAt ∧
    Tidied user area.1 w w'

/-- The exceptions of an addition that is turned away. -/
def Failure.rejects : Failure → Bool
  | .value _ | .quota _ => true
  | _ => false

/-! ## The rows that `reconcile` leaves -/

def refresh (names : Table String String) (areaId : Id) (m : StagingMessage H) :
    Option (StagingMessage H) :=
  if m.stagingId = areaId then
    (names.get? (maildirFilenamePrefix m.stagedFilename)).map fun name =>
      { m with stagedFilename := name }
  else some m

/-- The loop has come to `rest`, and `v` is what the writes so far make of `db`. -/
structure Refreshed (names : Table String String) (db : StagingDb H) (areaId : Id)
    (found : Findings H) (v : StagingDb H) (rest : List (Id × StagingMessage H)) : Prop where
  flushed : flushed db found.writes = some v
  areas : v.areas = db.areas
  restores : v.restores = db.restores
  index : v.toSearchDb = db.toSearchDb
  rows : ∀ id, v.staged.get? id =
    if id ∈ rest.map Prod.fst then db.staged.get? id
    else (db.staged.get? id).bind (refresh names areaId)

variable {names : Table String String}

theorem Refreshed.step {found : Findings H} {row : Id × StagingMessage H}
    {rest : List (Id × StagingMessage H)} (h : Refreshed names db areaId found v (row :: rest))
    (hrow : row ∈ stagedOf db areaId) (hnew : row.1 ∉ rest.map Prod.fst) :
    ∃ v', Refreshed names db areaId (reconcileRow names found row) v' rest := by
  obtain ⟨hget, hin⟩ := mem_stagedOf.mp hrow
  have hthere : v.staged.get? row.1 = some row.2 := by
    rw [h.rows, if_pos (by simp), hget]
  have hothers : ∀ id, id ≠ row.1 → v.staged.get? id =
      if id ∈ rest.map Prod.fst then db.staged.get? id
      else (db.staged.get? id).bind (refresh names areaId) := by
    intro id hid
    rw [h.rows]
    exact if_congr (by simp [hid]) rfl rfl
  unfold reconcileRow
  cases hname : names.get? (maildirFilenamePrefix row.2.stagedFilename) with
  | none =>
      refine ⟨v.deleteMessage row.1, ?_, h.areas, h.restores, h.index, ?_⟩
      · rw [flushed_append, h.flushed]
        rfl
      · intro id
        rw [StagingDb.deleteMessage, Table.get?_filter]
        by_cases hid : id = row.1
        · rw [hid, if_neg hnew, hthere, hget, Option.bind_some, refresh, if_pos hin, hname]
          simp
        · rw [← hothers id hid]
          cases v.staged.get? id <;> simp [hid]
  | some actual =>
      have hrefresh : refresh names areaId row.2 = some { row.2 with stagedFilename := actual } := by
        rw [refresh, if_pos hin, hname, Option.map_some]
      dsimp only
      split
      · rename_i hsame
        refine ⟨v, h.flushed, h.areas, h.restores, h.index, ?_⟩
        intro id
        by_cases hid : id = row.1
        · rw [hid, if_neg hnew, hthere, hget, Option.bind_some, hrefresh, hsame]
        · exact hothers id hid
      · refine ⟨v.renameStaged row.1 actual, ?_, h.areas, h.restores, h.index, ?_⟩
        · rw [flushed_append, h.flushed]
          change ([StagingWrite.renameStaged row.1 actual].foldlM StagingWrite.apply v) = _
          simp [StagingWrite.apply, hthere]
        · intro id
          rw [get?_renameStaged]
          by_cases hid : id = row.1
          · rw [hid, if_neg hnew, hthere, hget, Option.bind_some, hrefresh, Option.map_some,
              if_pos rfl]
          · rw [← hothers id hid]
            simp [hid]

theorem Refreshed.run {found : Findings H} {rest : List (Id × StagingMessage H)}
    (h : Refreshed names db areaId found v rest) (hrest : ∀ row ∈ rest, row ∈ stagedOf db areaId)
    (hnodup : (rest.map Prod.fst).Nodup) :
    ∃ v', Refreshed names db areaId (rest.foldl (reconcileRow names) found) v' [] := by
  induction rest generalizing found v with
  | nil => exact ⟨v, h⟩
  | cons row rest ih =>
      rw [List.map_cons, List.nodup_cons] at hnodup
      obtain ⟨v', h'⟩ := h.step (hrest row List.mem_cons_self) hnodup.1
      exact ih h' (fun other hother => hrest other (List.mem_cons_of_mem _ hother)) hnodup.2

/-- The loop over all the rows of the area. -/
theorem refreshed {rows : List (Id × StagingMessage H)} (hrows : rows.Perm (stagedOf db areaId))
    (names : Table String String) :
    ∃ v, Refreshed names db areaId (rows.foldl (reconcileRow names) {}) v [] := by
  have hstart : Refreshed names db areaId {} db rows := by
    refine ⟨rfl, rfl, rfl, rfl, ?_⟩
    intro id
    split
    · rfl
    · rename_i hid
      cases hget : db.staged.get? id with
      | none => rfl
      | some m =>
          have hin : m.stagingId ≠ areaId := by
            intro hin
            have hrow : (id, m) ∈ stagedOf db areaId := mem_stagedOf.mpr ⟨hget, hin⟩
            exact hid (List.mem_map.mpr ⟨_, hrows.mem_iff.mpr hrow, rfl⟩)
          rw [Option.bind_some, refresh, if_neg hin]
  exact hstart.run (fun row hrow => hrows.mem_iff.mp hrow)
    ((hrows.map Prod.fst).nodup_iff.mpr nodup_stagedOf)

/-- What `reconcile` commits, where these files are in the staging directory. -/
theorem Refreshed.tidied {w w' : World H} {listed : List String} {found : Findings H}
    {area : StagingArea} (h : Refreshed (namesOnDisk listed) w.db areaId found v [])
    (harea : w.db.areas.get? areaId = some area)
    (hlisted : ∀ name, name ∈ listed ↔ Lies w'.disk (stagingDir user) name)
    (hadopts : Adopts user w.disk w'.disk) (htotal : areaBytes v areaId = found.total)
    (hw' : w' = { w with db := v.setBytesUsed areaId found.total, disk := w'.disk }) :
    Tidied user areaId w w' := by
  have hdb : w'.db = v.setBytesUsed areaId found.total := by rw [hw']
  have hrows : ∀ id, w'.db.staged.get? id =
      (w.db.staged.get? id).bind (refresh (namesOnDisk listed) areaId) := by
    intro id
    rw [hdb]
    exact (h.rows id).trans (if_neg (by simp))
  have hbytes : areaBytes w'.db areaId = found.total := by
    rw [hdb]
    exact htotal
  refine ⟨hadopts, ?_, ?_, ?_, ?_, ?_, ?_, ?_, ?_⟩
  · intro id
    by_cases hid : id = areaId
    · refine .inr ⟨hid, area, hid ▸ harea, ?_⟩
      rw [hbytes, hdb, get?_setBytesUsed]
      exact ⟨area, by rw [h.areas, hid, harea], by rw [if_pos hid]⟩
    · refine .inl ?_
      rw [hdb]
      have hkeep : (v.setBytesUsed areaId found.total).areas.get? id = v.areas.get? id :=
        Table.get?_modify_of_ne _ _ hid
      rw [hkeep, h.areas]
  · intro id m hm hgone
    rw [hrows, hm, Option.bind_some, refresh] at hgone
    split at hgone
    · rename_i hin
      refine ⟨hin, fun name hname heq => ?_⟩
      obtain ⟨name', hname'⟩ := namesOnDisk_of_mem ((hlisted name).mpr hname)
      rw [heq, Option.map_eq_none_iff.mp hgone] at hname'
      cases hname'
    · cases hgone
  · intro id m' hm'
    rw [hrows, Option.bind_eq_some_iff] at hm'
    obtain ⟨m, hm, hrefresh⟩ := hm'
    refine ⟨m, hm, ?_⟩
    rw [refresh] at hrefresh
    split at hrefresh
    · rename_i hin
      obtain ⟨name, hname, rfl⟩ := Option.map_eq_some_iff.mp hrefresh
      obtain ⟨hmem, hprefix⟩ := mem_of_namesOnDisk hname
      exact .inr ⟨hin, name, (hlisted name).mp hmem, hprefix, rfl⟩
    · exact .inl (Option.some.inj hrefresh).symm
  · rw [hdb]
    exact h.restores
  · rw [hdb]
    exact h.index
  all_goals rw [hw']

/-- Where no row changes. -/
theorem tidied_of_adopts {w : World H} {disk : Maildirs} (h : Adopts user w.disk disk) :
    Tidied user areaId w { w with disk := disk } where
  adopts := h
  areas _ := .inl rfl
  dropped id m hm hgone := by
    rw [hm] at hgone
    cases hgone
  kept id m' hm' := ⟨m', hm', .inl rfl⟩
  restores := rfl
  index := rfl
  now := rfl
  cancelFlags := rfl
  submitted := rfl

/-! ## Operations that only read -/

def StagingOp.reads : StagingOp H → Bool
  | .stage _ | .commit | .rollback | .submit _ | .dropCancel _ | .renameDir .. | .makedirs ..
  | .rmtree _ | .write .. | .rename .. | .remove _ => false
  | _ => true

theorem op_reads {o : StagingOp H} (ho : o.reads = true) :
    (StagingTask.op o).Only fun o => o.reads = true := Prog.Only.op ho

section Reading

variable [DecidableEq H] {s t : Session H}

omit [DecidableEq H] in
theorem messageBytes_reads (key : MessageKey H) (row : MessageRow) :
    (messageBytes key row).Only fun o => o.reads = true := by
  have hdump : (do
      let found ← snapshotBytes key
      pure (found.filter fun raw => decide (raw.length < stagingDumpMaxBytes)) :
        StagingTask H (Option Bytes)).Only fun o : StagingOp H => o.reads = true :=
    Prog.Only.bind (op_reads rfl) fun _ => trivial
  unfold messageBytes
  split
  · refine Prog.Only.bind (op_reads rfl) fun live => ?_
    cases live with
    | some raw => trivial
    | none => exact hdump
  · exact hdump

theorem selectItem_reads (visible : List Id) (includeAll : Bool) (chosen : Selection H)
    (key : MessageKey H) :
    (selectItem user visible includeAll chosen key).Only fun o => o.reads = true := by
  unfold selectItem
  split
  · trivial
  · split
    · trivial
    · refine Prog.Only.bind (op_reads rfl) fun db => Prog.Only.bind (op_reads rfl) fun row => ?_
      split
      · refine Prog.Only.bind (messageBytes_reads _ _) fun raw => ?_
        cases raw <;> trivial
      · trivial

theorem machine_reads {o : StagingOp H} {r : Except Failure (StagingAns H o)}
    (ho : o.reads = true) (h : stagingMachine o s r = some t) : s = t := by
  cases r with
  | error e => exact (machine_error.mp h).2
  | ok a =>
      cases o with
      | stage | commit | rollback | submit | dropCancel | renameDir | makedirs | rmtree | write
      | rename | remove => cases ho
      | liveFile | snapshotBytes | decrypt | refreshToken | imap | token => exact Option.some.inj h
      | view | stagedRows | stagedCount | expiredAreas | indexed | flush | newId | now | cancelled
      | isdir | isSubdir | listdir | pathExists | read =>
          simp only [stagingMachine, Option.ite_none_right_eq_some, Option.some.injEq] at h
          exact h.2

/-! ## Exceptions that turn nothing away -/

/-- The exceptions of the program turn no addition away. -/
abbrev Tame {α : Type} (p : StagingTask H α) : Prop :=
  p.Throws stagingMachine fun e => e.rejects = false

/-- The operation asks nobody outside for a message or a password. -/
def StagingOp.domestic : StagingOp H → Bool
  | .snapshotBytes _ | .decrypt _ | .imap _ => false
  | _ => true

theorem tame_op {o : StagingOp H} (ho : o.domestic = true) : Tame (StagingTask.op o) := by
  refine Prog.Throws.op fun e s t h => ?_
  have hraises := (machine_error.mp h).1
  unfold Session.mayRaise at hraises
  split at hraises
  · rfl
  · rfl
  · unfold StagingOp.raises at hraises
    split at hraises
    all_goals first
      | rfl
      | cases ho
      | cases hraises

theorem adopt_tame (user : StagingUser) : Tame (H := H) (adoptPreRenameStagingDir user) := by
  refine .bind (tame_op rfl) fun current => ?_
  cases current with
  | true => exact .ret ()
  | false =>
      refine .bind (tame_op rfl) fun previous => ?_
      cases previous with
      | false => exact .ret ()
      | true =>
          refine .handle (tame_op rfl) fun e he => ?_
          cases e with
          | os text => exact .raise rfl
          | _ => exact .raise he

theorem onDisk_tame (d : StagingDir) : Tame (H := H) (onDisk d) := by
  refine .foldlM (fun names sub => .bind (tame_op rfl) fun present => ?_) _ _
  cases present with
  | false => exact .ret _
  | true => exact .bind (tame_op rfl) fun _ => .ret _

theorem reconcile_tame (area : Id × StagingArea) : Tame (H := H) (reconcile user area) := by
  refine .bind (.handle (.bind (adopt_tame user) fun _ => .ret _) fun e he => ?_) fun adopted => ?_
  · cases e with
    | adoption text => exact .ret _
    | _ => exact .raise he
  · cases adopted with
    | false => exact .ret _
    | true =>
        refine .bind (onDisk_tame _) fun names => .bind (tame_op rfl) fun rows => ?_
        dsimp only
        split
        · exact .bind (tame_op rfl) fun _ => .bind (tame_op rfl) fun _ => .ret _
        · exact .ret _

theorem reload_tame (areaId : Id) : Tame (H := H) (reload areaId) := by
  refine .bind (tame_op rfl) fun (db : StagingDb H) => ?_
  cases db.areas.get? areaId with
  | some area => exact .ret _
  | none => exact .raise rfl

theorem isExpired_tame (area : StagingArea) : Tame (H := H) (isExpired area) :=
  .bind (tame_op rfl) fun _ => .ret _

theorem stagedAlready_tame (user : StagingUser) : Tame (H := H) (stagedAlready user) := by
  refine .bind (tame_op rfl) fun (db : StagingDb H) => ?_
  cases areaOf db user.id with
  | none => exact .ret _
  | some area =>
      refine .bind (isExpired_tame _) fun expired => ?_
      cases expired with
      | true => exact .ret _
      | false =>
          exact .bind (reconcile_tame _) fun _ => .bind (tame_op rfl) fun _ =>
            .bind (reload_tame _) fun _ => .ret _

theorem createArea_tame (host : Host H) (user : StagingUser) : Tame (createArea host user) := by
  refine .bind (tame_op rfl) fun time => .bind (tame_op rfl) fun id => .bind (tame_op rfl) fun _ => ?_
  refine .handle (.bind (tame_op rfl) fun _ => .ret _) fun e he => ?_
  cases e with
  | integrity => exact .bind (tame_op rfl) fun _ => .bind (tame_op rfl) fun _ => .ret _
  | _ => exact .raise he

theorem getOrCreateArea_tame (host : Host H) (user : StagingUser) :
    Tame (getOrCreateArea host user) := by
  refine .bind (tame_op rfl) fun (db : StagingDb H) => ?_
  cases areaOf db user.id with
  | none => exact createArea_tame host user
  | some area =>
      refine .bind (isExpired_tame _) fun expired => ?_
      cases expired with
      | false => exact .ret _
      | true =>
          refine .bind (.forM (fun d => .bind (tame_op rfl) fun present => ?_) _) fun _ =>
            .bind (tame_op rfl) fun _ => .bind (tame_op rfl) fun _ => createArea_tame host user
          cases present with
          | true => exact .bind (tame_op rfl) fun _ => .ret _
          | false => exact .ret _

theorem copyFile_tame (d : StagingDir) (name : String) (raw : Bytes) :
    Tame (H := H) (copyFile d name raw) := by
  refine .handle (.bind (tame_op rfl) fun _ => .bind (tame_op rfl) fun _ => .ret _) fun e he => ?_
  cases e with
  | os text =>
      refine .bind (.handle (tame_op rfl) fun e he => ?_) fun _ => .ret _
      cases e with
      | os text => exact .ret _
      | _ => exact .raise he
  | _ => exact .raise he

theorem stageSelected_tame (host : Host H) (user : StagingUser) (items : List (MessageKey H))
    (chosen : Selection H) : Tame (stageSelected host user items chosen) := by
  refine .bind (getOrCreateArea_tame host user) fun area => ?_
  refine .bind (.bind (adopt_tame user) fun _ => .bind (.forM (fun _ => tame_op rfl) _) fun _ =>
    .ret _) fun d => .bind (tame_op rfl) fun time => ?_
  cases area with
  | none => exact .raise rfl
  | some area =>
      refine .bind (.foldlM (fun copied item => ?_) _ _) fun _ => .bind (tame_op rfl) fun _ => .ret _
      refine .bind (tame_op rfl) fun _ => .bind (copyFile_tame _ _ _) fun there => ?_
      cases there with
      | false => exact .ret _
      | true => exact .bind (tame_op rfl) fun _ => .bind (tame_op rfl) fun _ => .ret _

/-! ## What happens before the rejection -/

/-- The clock stands at this time. -/
abbrev clocked (time : Time) : Contract (StagingOp H) (Session H) := always (fun _ => True) time

variable {time : Time}

theorem reads_safe {α : Type} {p : StagingTask H α} (hp : p.Only fun o => o.reads = true)
    (h : (clocked time).crash s) :
    Safe stagingMachine (clocked time) (fun _ => Eq s) (fun _ => Eq s) p s := by
  refine hp.keeps (fun _ => rfl) Eq.trans (fun o r s t ho hr => machine_reads ho hr) ?_ ?_
  · rintro t rfl
    exact h
  · exact fun _ _ _ _ => trivial

/-- One operation that only reads. -/
theorem read_safe {o : StagingOp H} {Q : StagingAns H o → Session H → Prop}
    {E : Failure → Session H → Prop} (ho : o.reads = true) (h : (clocked time).crash s)
    (hok : ∀ a, stagingMachine o s (.ok a) = some s → Q a s) (herr : ∀ e, E e s) :
    Safe stagingMachine (clocked time) Q E (StagingTask.op o) s := by
  refine op_safe h ?_ fun e _ => herr e
  intro a t ht
  obtain rfl := machine_reads ho ht
  exact ⟨h, hok a ht⟩

theorem adopt_safe (h : (clocked time).crash s) :
    Safe stagingMachine (clocked time)
      (fun _ t => ∃ disk, Adopts user s.world.disk disk ∧ t = s.onDisk disk) (fun _ t => t = s)
      (adoptPreRenameStagingDir user) s := by
  have hnothing : ∃ disk, Adopts user s.world.disk disk ∧ s = s.onDisk disk :=
    ⟨s.world.disk, .inl rfl, rfl⟩
  unfold adoptPreRenameStagingDir
  apply Safe.bind
  refine read_safe rfl h ?_ fun _ => rfl
  intro current hcurrent
  cases current with
  | true => exact ⟨h, hnothing⟩
  | false =>
      have habsent : s.world.disk.isdir (stagingDir user) = false :=
        (Option.ite_none_right_eq_some.mp hcurrent).1
      apply Safe.bind
      refine read_safe rfl h ?_ fun _ => rfl
      intro previous _
      cases previous with
      | false => exact ⟨h, hnothing⟩
      | true =>
          apply Safe.handle
          refine op_safe h ?_ ?_
          · intro _ t ht
            obtain ⟨disk, hdisk, rfl⟩ := Option.map_eq_some_iff.mp ht
            exact ⟨h, disk, .inr ⟨habsent, hdisk⟩, rfl⟩
          · intro e _
            cases e <;> exact ⟨h, rfl⟩

theorem lies_append {disk : Maildirs} {d : StagingDir} {subs : List Sub} {listed listed' : List String}
    {sub : Sub} (h : ∀ name, name ∈ listed ↔ ∃ sub ∈ subs, (disk.file? ⟨d, sub, name⟩).isSome = true)
    (h' : ∀ name, name ∈ listed' ↔ (disk.file? ⟨d, sub, name⟩).isSome = true) (name : String) :
    name ∈ listed ++ listed' ↔
      ∃ other ∈ subs ++ [sub], (disk.file? ⟨d, other, name⟩).isSome = true := by
  rw [List.mem_append, h, h']
  simp [or_and_right, exists_or]

theorem onDisk_safe {d : StagingDir} (h : (clocked time).crash s) :
    Safe stagingMachine (clocked time)
      (fun names t => s = t ∧ ∃ listed, names = namesOnDisk listed ∧
        ∀ name, name ∈ listed ↔ Lies s.world.disk d name)
      (fun _ _ => True) (onDisk d) s := by
  refine Safe.foldlM (fun subs names t => s = t ∧ ∃ listed, names = namesOnDisk listed ∧
    ∀ name, name ∈ listed ↔ ∃ sub ∈ subs, (s.world.disk.file? ⟨d, sub, name⟩).isSome = true)
    [Sub.cur, .new] ⟨rfl, [], rfl, by simp⟩ h ?_
  rintro done sub _ names t - hc ⟨rfl, listed, rfl, hlisted⟩
  apply Safe.bind
  refine read_safe rfl hc ?_ fun _ => trivial
  intro present hpresent
  have hsub : (s.world.disk.sub? d sub).isSome = present :=
    (Option.ite_none_right_eq_some.mp hpresent).1
  cases present with
  | false =>
      have hnone : s.world.disk.sub? d sub = none := by simpa using hsub
      refine ⟨hc, rfl, listed ++ [], by rw [List.append_nil], lies_append hlisted fun name => ?_⟩
      simp [Maildirs.file?, hnone]
  | true =>
      apply Safe.bind
      refine read_safe rfl hc ?_ fun _ => trivial
      intro (found : List String) hfound
      obtain ⟨files, hfiles, hperm⟩ :=
        (Option.any_eq_true ..).mp (Option.ite_none_right_eq_some.mp hfound).1
      refine ⟨hc, rfl, listed ++ found, ?_, lies_append hlisted fun name => ?_⟩
      · rw [namesOnDisk, namesOnDisk, List.foldl_append]
      · have hkeys : name ∈ found ↔ name ∈ files.keys := (List.isPerm_iff.mp hperm).mem_iff
        rw [hkeys, Table.mem_keys, Maildirs.file?, hfiles, Option.bind_some,
          Option.isSome_iff_exists]

theorem reconcile_tidies {row : Id × StagingArea} (h : (clocked time).crash s) (hp : s.pending = [])
    (hrow : s.world.db.areas.get? row.1 = some row.2) :
    Safe stagingMachine (clocked time)
      (fun _ t => t.pending = [] ∧ Tidied user row.1 s.world t.world) (fun _ _ => True)
      (reconcile user row) s := by
  unfold reconcile
  apply Safe.bind
  apply Safe.handle
  apply Safe.bind
  refine (adopt_safe h).post ?_ ?_
  · rintro _ t hc ⟨disk, hadopts, rfl⟩
    refine ⟨hc, ?_⟩
    apply Safe.bind
    refine (onDisk_safe hc).post ?_ fun _ _ _ _ => trivial
    rintro names t hc ⟨rfl, listed, rfl, hlisted⟩
    have hsame : Tidied user row.1 s.world (s.onDisk disk).world := tidied_of_adopts hadopts
    apply Safe.bind
    refine stagedRows_safe hc ?_ fun _ => trivial
    intro rows db hseen hrows
    obtain rfl : s.world.db = db := Option.some.inj ((seen_of_nil hp).symm.trans hseen)
    obtain ⟨v, hv⟩ := refreshed hrows (namesOnDisk listed)
    obtain ⟨v', hv'⟩ := reconciled hrows (namesOnDisk listed)
    obtain rfl : v = v' := Option.some.inj (hv.flushed.symm.trans hv'.flushed)
    dsimp only
    split
    · apply Safe.bind
      refine stage_safe hc ?_
      apply Safe.bind
      refine commit_safe hc ?_ fun _ => trivial
      intro db' hdb'
      refine ⟨trivial, ⟨trivial, hc.2⟩, rfl, ?_⟩
      have hset : db' = v.setBytesUsed row.1
          (rows.foldl (reconcileRow (namesOnDisk listed)) {}).total := by
        have hpending : (s.onDisk disk).pending = [] := hp
        have hthere : v.areas.get? row.1 = some row.2 := hv.areas ▸ hrow
        rw [Session.seen, hpending, List.nil_append, flushed_append] at hdb'
        change (flushed s.world.db _).bind _ = _ at hdb'
        rw [hv.flushed, Option.bind_some] at hdb'
        simpa [flushed, StagingWrite.apply, hthere] using hdb'.symm
      exact hv.tidied hrow hlisted hadopts hv'.here (by rw [hset]; rfl)
    · exact ⟨hc, hp, hsame⟩
  · rintro e t hc rfl
    cases e with
    | adoption text => exact ⟨hc, hc, hp, tidied_of_adopts (.inl rfl)⟩
    | _ => exact ⟨hc, trivial⟩

theorem stagedAlready_tidies (h : (clocked time).crash s) (hp : s.pending = []) :
    Safe stagingMachine (clocked time)
      (fun _ t => t.pending = [] ∧ OnlyTidied user s.world t.world) (fun _ _ => True)
      (stagedAlready user) s := by
  unfold stagedAlready
  apply Safe.bind
  refine view_safe h ?_ fun _ => trivial
  intro db hseen
  obtain rfl : s.world.db = db := Option.some.inj ((seen_of_nil hp).symm.trans hseen)
  cases harea : areaOf s.world.db user.id with
  | none => exact ⟨h, hp, .inl rfl⟩
  | some area =>
      apply Safe.bind
      refine isExpired_safe h ?_
      cases hexpired : decide (area.2.expiresAt ≤ time) with
      | true => exact ⟨h, hp, .inl rfl⟩
      | false =>
          have hlive : s.world.now < area.2.expiresAt := by
            rw [h.2]
            simpa using hexpired
          apply Safe.bind
          refine (reconcile_tidies h hp (areaOf_eq_some.mp harea).1).post ?_ fun _ _ _ _ => trivial
          rintro _ t hc ⟨hpt, htidied⟩
          apply Safe.bind
          refine stagedRows_safe hc ?_ fun _ => trivial
          intro rows _ _ _
          apply Safe.bind
          refine reload_safe hc ?_ fun _ => trivial
          exact fun _ _ _ _ => ⟨hc, hpt, .inr ⟨area, harea, hlive, htidied⟩⟩

/-- An exception that turns the addition away comes before anything is made. -/
theorem addVisible_rejected {host : Host H} {visible : List Id} {items : List (MessageKey H)}
    {includeAll : Bool} (h : (clocked time).crash s) (hp : s.pending = []) :
    Safe stagingMachine .free (fun _ _ => True)
      (fun e t => e.rejects = true → t.pending = [] ∧ OnlyTidied user s.world t.world)
      (addVisible host user visible items includeAll) s := by
  have hfree : ∀ t : Session H, (clocked time).crash t →
      (Contract.free : Contract (StagingOp H) (Session H)).crash t := fun _ _ => trivial
  unfold addVisible
  apply Safe.bind
  refine ((stagedAlready_tame user).and (stagedAlready_tidies h hp)).mono hfree
    (fun _ _ _ => trivial) ?_ ?_
  · intro found t hc ht
    apply Safe.bind
    refine (reads_safe (Prog.Only.foldlM (selectItem_reads _ _) _ _) hc).mono hfree
      (fun _ _ _ => trivial) ?_ ?_
    · rintro chosen t - rfl
      dsimp only
      split
      · exact ⟨trivial, fun _ => ht⟩
      · split
        · exact ⟨trivial, trivial⟩
        · -- Nothing that goes wrong from here on turns the addition away.
          refine (stageSelected_tame host user items chosen _).post (fun _ _ _ _ => trivial) ?_
          intro e _ _ he hrejects
          rw [he] at hrejects
          cases hrejects
    · rintro e t - rfl _
      exact ht
  · intro e t _ he hrejects
    rw [he.2] at hrejects
    cases hrejects

/-- The user may stage the message. -/
def MayStage (user : StagingUser) (visible : List Id) (includeAll : Bool) (key : MessageKey H) : Prop :=
  key.1 ∈ visible ∨ includeAll = true ∧ user.row.role = .admin

omit [DecidableEq H] in
theorem mayStage_iff {visible : List Id} {includeAll : Bool} {key : MessageKey H} :
    MayStage user visible includeAll key ↔
      ¬(key.1 ∉ visible ∧ ¬(includeAll = true ∧ user.row.role = .admin)) := by
  rw [MayStage, not_and_not_right, or_iff_not_imp_left]

theorem select_returns {visible : List Id} {includeAll : Bool} (items : List (MessageKey H))
    (chosen : Selection H) :
    Safe stagingMachine .free (fun _ _ => ∀ key ∈ items, MayStage user visible includeAll key)
      (fun _ _ => True) (items.foldlM (selectItem user visible includeAll) chosen) s := by
  refine Safe.foldlM (fun done _ _ => ∀ key ∈ done, MayStage user visible includeAll key) items
    (by simp) trivial ?_
  intro done key _ chosen t _ _ hdone
  unfold selectItem
  split
  · exact ⟨trivial, trivial⟩
  · rename_i hmay
    refine Safe.top.post (fun _ _ _ _ key' hkey' => ?_) fun _ _ _ _ => trivial
    obtain hkey' | hkey' := List.mem_append.mp hkey'
    · exact hdone key' hkey'
    · rw [List.mem_singleton.mp hkey']
      exact mayStage_iff.mpr hmay

/-- Wherever an item stands that the user may not stage, the addition does not come through. -/
theorem addVisible_returns {host : Host H} {visible : List Id} {items : List (MessageKey H)}
    {includeAll : Bool} :
    Safe stagingMachine .free (fun _ _ => ∀ key ∈ items, MayStage user visible includeAll key)
      (fun _ _ => True) (addVisible host user visible items includeAll) s := by
  unfold addVisible
  apply Safe.bind
  refine Safe.top.post (fun found t _ _ => ?_) fun _ _ _ _ => trivial
  apply Safe.bind
  refine (select_returns items _).post (fun chosen t _ hall => ?_) fun _ _ _ _ => trivial
  dsimp only
  split
  · exact ⟨trivial, trivial⟩
  · split
    · exact ⟨trivial, hall⟩
    · exact Safe.top.post (fun _ _ _ _ => hall) fun _ _ _ _ => trivial

end Reading

/-- An addition that is turned away, for an account or for the quota, leaves no trace but the
reconciliation of the live area. -/
theorem rejected_addition_leaves_no_trace [DecidableEq H] {orders : Orders} {host : Host H}
    {items : List (MessageKey H)} {includeAll : Bool} {w : World H}
    {tr : List (Event (StagingOp H) (StagingAns H) Failure)} {e : Failure} {t : Session H}
    (hrun : Run stagingMachine (addMessages orders host user items includeAll) ⟨w, []⟩ tr (.raise e) t)
    (he : e.rejects = true) : t.pending = [] ∧ OnlyTidied user w t.world := by
  have hsafe : Safe stagingMachine .free (fun _ _ => True)
      (fun e t => e.rejects = true → t.pending = [] ∧ OnlyTidied user w t.world)
      (addMessages orders host user items includeAll) ⟨w, []⟩ := by
    unfold addMessages
    apply Safe.bind
    have hstart : (clocked w.now).crash (⟨w, []⟩ : Session H) := ⟨trivial, rfl⟩
    refine (reads_safe (op_reads rfl) hstart).mono (fun _ _ => trivial) (fun _ _ _ => trivial) ?_ ?_
    · rintro db _ - rfl
      exact addVisible_rejected hstart rfl
    · rintro _ _ - rfl _
      exact ⟨rfl, .inl rfl⟩
  exact (hsafe.run hrun).2 he

/-- The first message is found, the second lies in an account of somebody else. -/
theorem sample_rejected : ∃ tr t, Run stagingMachine
    (addMessages Access.sampleOrders sampleHost ⟨"u1", Access.sampleUser, "/mail"⟩
      [("a1", "h1"), ("a2", "h1")] false)
    ⟨sampleWorld, []⟩ tr (.raise (.value "Account a2 not accessible")) t ∧
    t.pending = [] ∧ OnlyTidied ⟨"u1", Access.sampleUser, "/mail"⟩ sampleWorld t.world := by
  obtain ⟨tr, p, t, hrun, hp⟩ := @sample_addMessages Access.sampleOrders [("a1", "h1"), ("a2", "h1")]
    (fun r => decide (r.1.raised = some (.value "Account a2 not accessible"))) (by decide +kernel)
  obtain rfl := Prog.raised_eq_some (of_decide_eq_true hp)
  exact ⟨tr, t, hrun, rejected_addition_leaves_no_trace hrun rfl⟩

end MailFallback.Staging
