import MailFallback.Access.Agreement
import MailFallback.Library.Transition
import MailFallback.Staging.Worker

/-! # The staging areas over time

One operation at a time runs on the world, from its first query to its return, to the exception
that ends it or to the moment its process is killed. In between webmail works on the Maildirs,
time passes and rights change. -/

namespace MailFallback.Staging

open Storage Effects Query Index Snapshots Access Search StagingTask

variable {H : Type} [DecidableEq H]

inductive Operation (H : Type) where
  | add (userId : Id) (items : List (MessageKey H)) (includeAll : Bool)
  | status (userId : Id)
  | push (userId : Id) (req : PushRequest)
  /-- The clean-up after the files under these manifest names were pushed. -/
  | cleanup (userId : Id) (pushed : Table String StagedPath)
  | empty (userId : Id)
  | expire

/-- The user of a request, as its session has loaded him. -/
def withUser (userId : Id) (p : StagingUser → StagingTask H Unit) : StagingTask H Unit := do
  let db ← view
  match loadUser db.toAccessDb userId with
  | none => pure ()
  | some user => p user

def Operation.program (orders : Orders) (host : Host H) : Operation H → StagingTask H Unit
  | .add userId items includeAll => withUser userId fun user => do
      let _ ← addMessages orders host user items includeAll
      pure ()
  | .status userId => withUser userId fun user => do
      let _ ← getStatus host user
      pure ()
  | .push userId req => withUser userId fun user => do
      let _ ← apiStagingPush host user req
      pure ()
  | .cleanup userId pushed => withUser userId fun user => cleanupPushed user (stagingDir user) pushed
  | .empty userId => withUser userId Staging.empty
  | .expire => do
      let _ ← cleanupExpired
      pure ()

/-! ## Rights -/

inductive RightsChange where
  | setOwners (accountId : Id) (owners : List Id)
  | share (accountId groupId : Id)
  | unshare (accountId groupId : Id)
  | join (groupId userId : Id)
  | leave (groupId userId : Id)
  deriving DecidableEq, Repr

def setOwners (db : AccessDb) (accountId : Id) (owners : List Id) : AccessDb :=
  { db with
    accounts := db.accounts.modify accountId fun account => { account with owners := owners }
    accountStores := by
      intro i a ha
      rw [Table.modify, Table.get?_map, Option.map_eq_some_iff] at ha
      obtain ⟨a, ha, rfl⟩ := ha
      have hstore := db.accountStores i a ha
      split <;> exact hstore
    sharedAccounts := by
      intro r hr
      rw [Table.modify, Table.get?_map, Option.isSome_map]
      exact db.sharedAccounts r hr }

/-- The foreign key wants the account to exist. -/
def share (db : AccessDb) (accountId groupId : Id) : AccessDb :=
  if h : (db.accounts.get? accountId).isSome = true then
    { db with
      accountGroups := (accountId, groupId) ::ₘ db.accountGroups
      sharedAccounts := by
        intro r hr
        rw [Multiset.mem_cons] at hr
        cases hr with
        | inl heq => rw [heq]; exact h
        | inr hr => exact db.sharedAccounts r hr }
  else db

def unshare (db : AccessDb) (accountId groupId : Id) : AccessDb :=
  { db with
    accountGroups := db.accountGroups.erase (accountId, groupId)
    sharedAccounts := fun r hr => db.sharedAccounts r (Multiset.mem_of_mem_erase hr) }

def RightsChange.apply (db : AccessDb) : RightsChange → AccessDb
  | .setOwners accountId owners => Staging.setOwners db accountId owners
  | .share accountId groupId => Staging.share db accountId groupId
  | .unshare accountId groupId => Staging.unshare db accountId groupId
  | .join groupId userId => { db with groupMembers := (groupId, userId) ::ₘ db.groupMembers }
  | .leave groupId userId => { db with groupMembers := db.groupMembers.erase (groupId, userId) }

/-! ## Runs -/

inductive StagingEvent (H : Type) where
  | operation (o : Operation H)
  /-- Webmail changes the flags of a message, which renames its file. -/
  | flag (d : StagingDir) (sub : Sub) (name name' : String)
  /-- Webmail deletes a message. -/
  | expunge (p : StagedPath)
  | rights (change : RightsChange)
  | pass (time : ℕ)

/-- A rename that webmail can make: the stable prefix stays, and no file is overwritten. -/
def canFlag (disk : Maildirs) (d : StagingDir) (sub : Sub) (name name' : String) : Prop :=
  maildirFilenamePrefix name' = maildirFilenamePrefix name ∧ disk.file? ⟨d, sub, name'⟩ = none

def flagged (disk : Maildirs) (d : StagingDir) (sub : Sub) (name name' : String) : Maildirs :=
  match disk.file? ⟨d, sub, name⟩ with
  | some bytes => (disk.erase ⟨d, sub, name⟩).put ⟨d, sub, name'⟩ bytes
  | none => disk

/-- Between two operations nothing is pending: a session that ends takes what it has not
committed along. -/
def StagingSteps (orders : Orders) (host : Host H) : World H → StagingEvent H → World H → Prop
  | w, .operation o, w' => ∃ tr p s, Run stagingMachine (o.program orders host) ⟨w, []⟩ tr p s ∧
      w' = s.world
  | w, .flag d sub name name', w' => canFlag w.disk d sub name name' ∧
      w' = { w with disk := flagged w.disk d sub name name' }
  | w, .expunge p, w' => w' = { w with disk := w.disk.erase p }
  | w, .rights change, w' =>
      w' = { w with db := { w.db with toAccessDb := change.apply w.db.toAccessDb } }
  | w, .pass time, w' => w' = { w with now := w.now + time }

/-! ## A host on which nothing fails -/

/-- Every message has the same row and bytes, and the mail server accepts what it is sent. -/
def ordinary (row : MessageRow) (raw : Bytes) (s : Session H) : (o : StagingOp H) → Except Failure (StagingAns H o)
  | .view => s.seen.elim (.error .integrity) fun db => .ok db
  | .stagedRows areaId => .ok (s.seen.elim [] fun db => stagedOf db areaId)
  | .stagedCount areaId => .ok (show ℕ from s.seen.elim 0 fun db => (stagedOf db areaId).length)
  | .expiredAreas now => .ok (s.seen.elim [] fun db => expiredOf db now)
  | .indexed _ => .ok (some row)
  | .newId => .ok ("i" ++ toString (s.seen.elim 0 fun db =>
      db.areas.rows.length + db.staged.rows.length + db.restores.rows.length))
  | .now => .ok s.world.now
  | .token => .ok ("t" ++ toString s.pending.length)
  | .cancelled jobId => .ok (s.world.cancelFlags.contains jobId)
  | .isdir d => .ok (s.world.disk.isdir d)
  | .isSubdir d sub => .ok (s.world.disk.sub? d sub).isSome
  | .listdir d sub => .ok ((s.world.disk.sub? d sub).elim [] Table.keys)
  | .pathExists p => .ok (s.world.disk.exists? p)
  | .read p => (s.world.disk.file? p).elim (.error (.os "No such file or directory")) fun b => .ok b
  | .liveFile _ => .ok (some raw)
  | .snapshotBytes _ => .ok none
  | .decrypt credentials => .ok credentials
  | .refreshToken _ => .ok (some "token")
  | .rmtree _ => .ok none
  | .imap .list => .ok ("OK", none)
  | .imap (.select ..) => .ok "OK"
  | .imap (.append ..) => .ok "OK"
  | .imap .search => .ok ("OK", [])
  | .imap (.fetchHeader _) => .ok ("OK", none)
  | .imap (.connect ..) | .imap .close | .imap (.create _) | .imap .logout => .ok ()
  | .stage _ | .flush | .commit | .rollback | .submit _ | .dropCancel _ | .renameDir ..
  | .makedirs .. | .write .. | .rename .. | .remove _ => .ok ()

/-- A user with one mailbox, and a message in it. -/
def sampleRow : MessageRow where
  messageId := "<m@x>"
  folderPath := "INBOX"
  maildirFilename := "1"
  firstSeenAt := 0
  lastSeenAt := 0

def sampleAccount : Account where
  maildirPath := "/mail/a1"
  storeId := "s1"
  owners := ["u1"]
  credentials := some "secret"

def sampleServer : AccessDb := { Access.sampleDb with
  accounts := ⟨[("a1", sampleAccount)], by decide⟩
  groupMembers := 0
  accountGroups := 0
  accountStores := by
    intro i a hi
    have hi := Table.mem_rows.mpr hi
    simp only [List.mem_singleton, Prod.mk.injEq] at hi
    rw [hi.2]
    rfl
  sharedAccounts := by decide }

def sampleStagingDb : StagingDb String := { sampleServer with
  messages := {(("a1", "h1"), sampleRow)}
  areaUsers := fun _ _ _ _ h => by simp at h
  stagedAreas := fun _ _ h => by simp at h }

def sampleHost : Host String where
  day := fun _ => "2026-01-02"
  hex := id
  messageId := fun _ => none

def sampleWorld : World String where
  db := sampleStagingDb

theorem sample_accessible (orders : Orders) :
    accessibleAccountIds orders sampleServer "u1" = ["a1"] := by
  have hrows : union ((sampleServer.ownerJoin.filter fun r => r.2.2 = "u1").map fun r => r.1.1)
      ((sampleServer.groupJoin.filter fun r => r.2.2 = "u1").map fun r => r.1.1.1) = {"a1"} := by
    decide +kernel
  have hlist := orders.ids.coe_list {"a1"}
  rw [Multiset.coe_eq_singleton] at hlist
  unfold accessibleAccountIds
  dsimp only
  rw [hrows, hlist]

/-- What the user asks for, and the host serves. -/
theorem sample_addMessages (orders : Orders) {items : List (MessageKey String)}
    {f : StagingTask String AddResult × Session String → Bool}
    (h : (exec stagingMachine (fun o s => ordinary sampleRow [1, 2, 3] s o) 60
      (addVisible sampleHost ⟨"u1", Access.sampleUser, "/mail"⟩ ["a1"] items false)
      ⟨sampleWorld, []⟩).any f = true) :
    ∃ tr p s, Run stagingMachine
      (addMessages orders sampleHost ⟨"u1", Access.sampleUser, "/mail"⟩ items false)
      ⟨sampleWorld, []⟩ tr p s ∧ f (p, s) = true := by
  obtain ⟨tr, p, s, hrun, hf⟩ := exec_any h
  have hview : stagingMachine .view ⟨sampleWorld, []⟩ (.ok sampleStagingDb) =
      some ⟨sampleWorld, []⟩ := machine_view.mpr ⟨rfl, rfl⟩
  refine ⟨⟨.view, .ok sampleStagingDb⟩ :: tr, p, s, Run.step hview ?_, hf⟩
  rw [← sample_accessible orders] at hrun
  exact hrun

/-- The user stages the message. -/
theorem sample_add (orders : Orders) {f : World String → Bool}
    (h : (exec stagingMachine (fun o s => ordinary sampleRow [1, 2, 3] s o) 60
      (addVisible sampleHost ⟨"u1", Access.sampleUser, "/mail"⟩ ["a1"] [("a1", "h1")] false)
      ⟨sampleWorld, []⟩).any (fun r => r.1.finished && f r.2.world) = true) :
    ∃ w, StagingSteps orders sampleHost sampleWorld (.operation (.add "u1" [("a1", "h1")] false)) w ∧
      f w = true := by
  obtain ⟨tr, p, s, hadd, hf⟩ := sample_addMessages orders h
  have hview : stagingMachine .view ⟨sampleWorld, []⟩ (.ok sampleStagingDb) =
      some ⟨sampleWorld, []⟩ := machine_view.mpr ⟨rfl, rfl⟩
  have hrest := hadd.bind fun _ => Prog.ret ()
  exact ⟨s.world, ⟨_, _, s, .step hview hrest, rfl⟩, (Bool.and_eq_true_iff.mp hf).2⟩

end MailFallback.Staging
