import MailFallback.Staging.System

/-! # What the operations of the staging services do to a session

Only `stage`, `commit` and `rollback` touch what a session has written; the others leave the
database as it is, and the replies of the queries tell what the session sees. -/

namespace MailFallback.Staging

open Storage Effects Index Snapshots Access Search StagingTask

variable {H : Type}

/-! ## Programs that write nothing -/

def StagingOp.quiet : StagingOp H → Bool
  | .stage _ | .commit | .rollback => false
  | _ => true

/-- Nor do they talk to the mail server. -/
def StagingOp.offline (o : StagingOp H) : Bool :=
  o.quiet && match o with
    | .imap _ => false
    | _ => true

theorem op_only {o : StagingOp H} (ho : o.offline = true) :
    (StagingTask.op o).Only fun o => o.offline = true := Prog.Only.op ho

theorem adopt_offline (user : StagingUser) :
    (adoptPreRenameStagingDir user : StagingTask H Unit).Only fun o => o.offline = true := by
  refine Prog.Only.bind (op_only rfl) fun current => ?_
  cases current with
  | true => trivial
  | false =>
      refine Prog.Only.bind (op_only rfl) fun previous => ?_
      cases previous with
      | false => trivial
      | true =>
          refine Prog.Only.handle (op_only rfl) fun e => ?_
          cases e <;> trivial

theorem ensureStagingDir_offline (user : StagingUser) :
    (ensureStagingDir user : StagingTask H StagingDir).Only fun o => o.offline = true := by
  refine Prog.Only.bind (adopt_offline user) fun _ => Prog.Only.bind ?_ fun _ => trivial
  exact Prog.Only.forM (fun sub => op_only rfl) _

theorem adopted_offline (user : StagingUser) :
    (((do
      adoptPreRenameStagingDir user
      pure true : StagingTask H Bool)).handle fun
        | .adoption _ => pure false
        | e => Prog.raise e).Only fun o : StagingOp H => o.offline = true := by
  refine Prog.Only.handle (Prog.Only.bind (adopt_offline user) fun _ => trivial) fun e => ?_
  cases e <;> trivial

theorem removeStagingDir_offline (user : StagingUser) :
    (removeStagingDir user : StagingTask H Unit).Only fun o => o.offline = true := by
  refine Prog.Only.forM (fun d => Prog.Only.bind (op_only rfl) fun present => ?_) _
  cases present with
  | true => exact Prog.Only.bind (op_only rfl) fun _ => trivial
  | false => trivial

theorem onDisk_offline (d : StagingDir) :
    (onDisk d : StagingTask H (Table String String)).Only fun o => o.offline = true := by
  refine Prog.Only.foldlM (fun names sub => Prog.Only.bind (op_only rfl) fun present => ?_) _ _
  cases present with
  | false => trivial
  | true => exact Prog.Only.bind (op_only rfl) fun _ => trivial

theorem messageBytes_offline (key : MessageKey H) (row : MessageRow) :
    (messageBytes key row).Only fun o => o.offline = true := by
  have hdump : (do
      let found ← snapshotBytes key
      pure (found.filter fun raw => decide (raw.length < stagingDumpMaxBytes)) :
        StagingTask H (Option Bytes)).Only fun o : StagingOp H => o.offline = true :=
    Prog.Only.bind (op_only rfl) fun _ => trivial
  unfold messageBytes
  split
  · refine Prog.Only.bind (op_only rfl) fun live => ?_
    cases live with
    | some raw => trivial
    | none => exact hdump
  · exact hdump

theorem copyFile_offline (d : StagingDir) (name : String) (raw : Bytes) :
    (copyFile d name raw : StagingTask H Bool).Only fun o => o.offline = true := by
  refine Prog.Only.handle ?_ fun e => ?_
  · exact Prog.Only.bind (op_only rfl) fun _ => Prog.Only.bind (op_only rfl) fun _ => trivial
  · cases e with
    | os text =>
        refine Prog.Only.bind (Prog.Only.handle (op_only rfl) fun e => ?_) fun _ => trivial
        cases e <;> trivial
    | _ => trivial

theorem stagedFilesRemain_offline (d : StagingDir) (subs : List Sub) :
    (stagedFilesRemain d subs : StagingTask H Bool).Only fun o => o.offline = true := by
  induction subs with
  | nil => trivial
  | cons sub subs ih =>
      refine Prog.Only.bind (op_only rfl) fun present => ?_
      cases present with
      | false => exact ih
      | true =>
          refine Prog.Only.bind (op_only rfl) fun listed => ?_
          split
          · exact ih
          · trivial

variable {s t : Session H}

/-- The same database, the same pending changes and the same time. -/
structure Same (s t : Session H) : Prop where
  db : t.world.db = s.world.db
  pending : t.pending = s.pending
  now : t.world.now = s.world.now

theorem Same.refl (s : Session H) : Same s s := ⟨rfl, rfl, rfl⟩

theorem Same.trans {u : Session H} (h : Same s t) (h' : Same t u) : Same s u :=
  ⟨h'.db.trans h.db, h'.pending.trans h.pending, h'.now.trans h.now⟩

theorem Same.seen (h : Same s t) : t.seen = s.seen := by
  rw [Session.seen, Session.seen, h.db, h.pending]

variable [DecidableEq H]

/-! ## The machine -/

theorem machine_stagedRows {areaId : Id} {rows : List (Id × StagingMessage H)} :
    stagingMachine (.stagedRows areaId) s (.ok rows) = some t ↔
      (∃ db, s.seen = some db ∧ rows.Perm (stagedOf db areaId)) ∧ s = t := by
  simp [stagingMachine, Option.any_eq_true, List.isPerm_iff]

theorem machine_stagedCount {areaId : Id} {n : ℕ} :
    stagingMachine (.stagedCount areaId) s (.ok n) = some t ↔
      (∃ db, s.seen = some db ∧ (stagedOf db areaId).length = n) ∧ s = t := by
  simp [stagingMachine, Option.any_eq_true]

theorem machine_stage {writes : List (StagingWrite H)} {u : Unit} :
    stagingMachine (.stage writes) s (.ok u) = some t ↔
      { s with pending := s.pending ++ writes } = t := by
  simp [stagingMachine]

theorem machine_flush {u : Unit} :
    stagingMachine .flush s (.ok u) = some t ↔ s.seen.isSome = true ∧ s = t := by
  simp [stagingMachine]

theorem machine_commit {u : Unit} :
    stagingMachine .commit s (.ok u) = some t ↔
      ∃ db, s.seen = some db ∧ { world := { s.world with db := db } } = t := by
  simp [stagingMachine]

theorem machine_rollback {u : Unit} :
    stagingMachine .rollback s (.ok u) = some t ↔ { s with pending := [] } = t := by
  simp [stagingMachine]

theorem machine_newId {id : Id} :
    stagingMachine .newId s (.ok id) = some t ↔
      (∀ db, s.seen = some db → isFresh db id = true) ∧ s = t := by
  simp [stagingMachine, Option.all_eq_true]

theorem machine_now {time : Time} :
    stagingMachine .now s (.ok time) = some t ↔ s.world.now = time ∧ s = t := by
  simp [stagingMachine]

theorem machine_expiredAreas {time : Time} {rows : List (Id × StagingArea)} :
    stagingMachine (.expiredAreas time) s (.ok rows) = some t ↔
      (∃ db, s.seen = some db ∧ rows.Perm (expiredOf db time)) ∧ s = t := by
  simp [stagingMachine, Option.any_eq_true, List.isPerm_iff]

/-! ## Operations that write nothing -/

theorem machine_quiet {o : StagingOp H} {r : Except Failure (StagingAns H o)}
    (ho : o.quiet = true) (h : stagingMachine o s r = some t) : Same s t := by
  cases r with
  | error e =>
      obtain ⟨-, rfl⟩ := machine_error.mp h
      exact .refl s
  | ok a =>
      cases o with
      | stage | commit | rollback => cases ho
      | renameDir d e =>
          obtain ⟨disk, -, rfl⟩ := Option.map_eq_some_iff.mp h
          exact ⟨rfl, rfl, rfl⟩
      | rename p q =>
          simp only [stagingMachine] at h
          split at h
          · obtain ⟨-, ht⟩ := Option.ite_none_right_eq_some.mp h
            obtain rfl := Option.some.inj ht
            exact ⟨rfl, rfl, rfl⟩
          · cases h
      | submit | dropCancel | makedirs | rmtree | write | remove | liveFile | snapshotBytes
      | decrypt | refreshToken | imap | token | view | stagedRows | stagedCount | expiredAreas
      | indexed | flush | newId | now | cancelled | isdir | isSubdir | listdir | pathExists
      | read =>
          simp only [stagingMachine, Option.ite_none_right_eq_some, Option.some.injEq] at h
          first
            | exact h ▸ ⟨rfl, rfl, rfl⟩
            | exact h.2 ▸ ⟨rfl, rfl, rfl⟩

/-! ## Rules for programs -/

/-- The committed database keeps to `I` at every moment, and the time stands still. -/
def always (I : StagingDb H → Prop) (time : Time) : Contract (StagingOp H) (Session H) :=
  ⟨fun s => I s.world.db ∧ s.world.now = time, fun _ _ => True⟩

section Rules

variable {α : Type} {I : StagingDb H → Prop} {time : Time} {E : Failure → Session H → Prop}

theorem offline_safe {p : StagingTask H α} (hp : p.Only fun o => o.offline = true)
    (h : (always I time).crash s) :
    Safe stagingMachine (always I time) (fun _ => Same s) (fun _ => Same s) p s := by
  refine hp.keeps Same.refl Same.trans (fun o r s t ho hr => machine_quiet (Bool.and_eq_true_iff.mp ho).1 hr) ?_ ?_
  · intro t ht
    exact ⟨ht.db ▸ h.1, ht.now.trans h.2⟩
  · exact fun _ _ _ _ => trivial

/-- One operation with its exceptions; an exception leaves the session as it is. -/
theorem op_safe {o : StagingOp H} {Q : StagingAns H o → Session H → Prop}
    (h : (always I time).crash s)
    (hok : ∀ a t, stagingMachine o s (.ok a) = some t → (always I time).crash t ∧ Q a t)
    (herr : ∀ e, s.mayRaise o e = true → E e s) :
    Safe stagingMachine (always I time) Q E (StagingTask.op o) s := by
  refine Safe.op h trivial hok ?_
  intro e t ht
  obtain ⟨he, rfl⟩ := machine_error.mp ht
  exact ⟨h, herr e he⟩

theorem view_safe {Q : StagingDb H → Session H → Prop} (h : (always I time).crash s)
    (hok : ∀ db, s.seen = some db → Q db s) (herr : ∀ e, E e s) :
    Safe stagingMachine (always I time) Q E view s := by
  refine op_safe h ?_ fun e _ => herr e
  intro db t ht
  obtain ⟨hseen, rfl⟩ := machine_view.mp ht
  exact ⟨h, hok db hseen⟩

theorem stagedRows_safe {areaId : Id} {Q : List (Id × StagingMessage H) → Session H → Prop}
    (h : (always I time).crash s)
    (hok : ∀ rows db, s.seen = some db → rows.Perm (stagedOf db areaId) → Q rows s)
    (herr : ∀ e, E e s) :
    Safe stagingMachine (always I time) Q E (stagedRows areaId) s := by
  refine op_safe h ?_ fun e _ => herr e
  intro rows t ht
  obtain ⟨⟨db, hseen, hrows⟩, rfl⟩ := machine_stagedRows.mp ht
  exact ⟨h, hok rows db hseen hrows⟩

theorem expiredAreas_safe {now : Time} {Q : List (Id × StagingArea) → Session H → Prop}
    (h : (always I time).crash s)
    (hok : ∀ rows db, s.seen = some db → rows.Perm (expiredOf db now) → Q rows s)
    (herr : ∀ e, E e s) :
    Safe stagingMachine (always I time) Q E (expiredAreas now) s := by
  refine op_safe h ?_ fun e _ => herr e
  intro rows t ht
  obtain ⟨⟨db, hseen, hrows⟩, rfl⟩ := machine_expiredAreas.mp ht
  exact ⟨h, hok rows db hseen hrows⟩

theorem now_safe {Q : Time → Session H → Prop} (h : (always I time).crash s) (hok : Q time s) :
    Safe stagingMachine (always I time) Q E now s := by
  refine op_safe h ?_ fun e he => by cases e <;> cases he
  intro a t ht
  obtain ⟨hnow, rfl⟩ := machine_now.mp ht
  rw [h.2] at hnow
  exact ⟨h, hnow ▸ hok⟩

theorem newId_safe {Q : Id → Session H → Prop} (h : (always I time).crash s)
    (hok : ∀ id, (∀ db, s.seen = some db → isFresh db id = true) → Q id s) :
    Safe stagingMachine (always I time) Q E newId s := by
  refine op_safe h ?_ fun e he => by cases e <;> cases he
  intro id t ht
  obtain ⟨hfresh, rfl⟩ := machine_newId.mp ht
  exact ⟨h, hok id hfresh⟩

theorem stage_safe {writes : List (StagingWrite H)} {Q : Unit → Session H → Prop}
    (h : (always I time).crash s) (hok : Q () { s with pending := s.pending ++ writes }) :
    Safe stagingMachine (always I time) Q E (stage writes) s := by
  refine op_safe h ?_ fun e he => by cases e <;> cases he
  intro _ t ht
  rw [← machine_stage.mp ht]
  exact ⟨h, hok⟩

theorem commit_safe {Q : Unit → Session H → Prop} (h : (always I time).crash s)
    (hok : ∀ db, s.seen = some db → I db ∧ Q () { world := { s.world with db := db } })
    (herr : ∀ e, E e s) : Safe stagingMachine (always I time) Q E commit s := by
  refine op_safe h ?_ fun e _ => herr e
  intro _ t ht
  obtain ⟨db, hseen, rfl⟩ := machine_commit.mp ht
  exact ⟨⟨(hok db hseen).1, h.2⟩, (hok db hseen).2⟩

theorem flush_safe {Q : Unit → Session H → Prop} (h : (always I time).crash s) (hok : Q () s)
    (herr : ∀ e, s.mayRaise .flush e = true → E e s) :
    Safe stagingMachine (always I time) Q E flush s := by
  refine op_safe h ?_ herr
  intro _ t ht
  obtain ⟨-, rfl⟩ := machine_flush.mp ht
  exact ⟨h, hok⟩

theorem isExpired_safe {area : StagingArea} {Q : Bool → Session H → Prop} (h : (always I time).crash s)
    (hok : Q (decide (area.expiresAt ≤ time)) s) :
    Safe stagingMachine (always I time) Q E (isExpired area) s := by
  apply Safe.bind
  exact now_safe h ⟨h, hok⟩

theorem reload_safe {areaId : Id} {Q : Id × StagingArea → Session H → Prop}
    (h : (always I time).crash s)
    (hok : ∀ db area, s.seen = some db → db.areas.get? areaId = some area → Q (areaId, area) s)
    (herr : ∀ e, E e s) : Safe stagingMachine (always I time) Q E (reload areaId) s := by
  apply Safe.bind
  refine view_safe h ?_ herr
  intro db hseen
  cases harea : db.areas.get? areaId with
  | some area => exact ⟨h, hok db area hseen harea⟩
  | none => exact ⟨h, herr _⟩

end Rules

end MailFallback.Staging
