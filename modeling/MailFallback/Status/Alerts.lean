import MailFallback.Library.Transition
import MailFallback.Tables

/-! # Problem notifications

The owners of an account are told of a problem once, until the account has another problem or
none. The mark that remembers it is one column, which every worker reads into its session when it
starts and writes back in its own time. -/

namespace MailFallback.Notifications

open Storage Transition

structure NotificationChannel where
  userId : Id
  enabled : Bool := true
  events : List String := []
  deriving DecidableEq, Repr

/-- What has happened, the latest first in a history. -/
inductive Entry where
  | sent (key : String) (channels : List Id)
  /-- An UPDATE of `last_notified_state`. -/
  | marked (mark : Option String)
  deriving DecidableEq, Repr

/-- One account, as the workers see it. -/
structure Alerts where
  lastNotifiedState : Option String := none
  owners : List Id := []
  channels : Table Id NotificationChannel := .empty
  /-- The mark as the running sync job has loaded it. -/
  sync : Option (Option String) := none
  /-- The same for every backup that runs. -/
  backups : List (Option String) := []
  history : List Entry := []

/-- How a sync job ends, as far as the mark is concerned. -/
inductive SyncEnd where
  | completed
  | problem (paused : Bool)
  /-- The branch of a failed token refresh, which returns before the `try`. -/
  | refreshFailed (terminal : Bool)
  /-- Stopped by the user, closed by another actor or blocked. -/
  | quiet
  deriving DecidableEq, Repr

def problemKey (paused : Bool) : String := if paused = true then "sync_paused" else "sync_error"

def refreshKey (terminal : Bool) : String :=
  if terminal = true then "needs_reauth" else "sync_error"

/-! ## The service -/

/-- The channels `_send_to_users` starts a thread for. -/
def targets (s : Alerts) (key : String) : List Id :=
  (s.channels.rows.filter fun row =>
    s.owners.contains row.2.userId && row.2.enabled && row.2.events.contains key).map Prod.fst

def Alerts.send (s : Alerts) (key : String) : Alerts :=
  { s with history := .sent key (targets s key) :: s.history }

/-- The commit of a mark, which writes nothing when the loaded value is the same. -/
def Alerts.mark (s : Alerts) (loaded mark : Option String) : Alerts :=
  if loaded = mark then s
  else { s with lastNotifiedState := mark, history := .marked mark :: s.history }

/-- `notify_account_problem` without the commit of its caller. -/
def notifyAccountProblem (s : Alerts) (loaded : Option String) (key : String) : Alerts :=
  if loaded = some key then s else s.send key

inductive AlertEvent where
  | syncStart
  /-- The session reads the account again, as it does after each of its commits. -/
  | syncReload
  | syncEnd (e : SyncEnd)
  | backupStart
  | backupReload (i : ℕ)
  | backupEnd (i : ℕ) (success : Bool)
  | staleTick
  | configure (owners : List Id) (channels : Table Id NotificationChannel)

/-- The end of a sync whose session holds this mark. -/
def Alerts.endSync (s : Alerts) (loaded : Option String) : SyncEnd → Alerts
  | .completed => s.mark loaded none
  | .problem paused =>
      (notifyAccountProblem s loaded (problemKey paused)).mark loaded (some (problemKey paused))
  | .refreshFailed terminal => notifyAccountProblem s loaded (refreshKey terminal)
  | .quiet => s

def Alerts.endBackup (s : Alerts) (loaded : Option String) (success : Bool) : Alerts :=
  if success = true then if loaded = some "backup_failed" then s.mark loaded none else s
  else (notifyAccountProblem s loaded "backup_failed").mark loaded (some "backup_failed")

/-- An account has one open sync job; nothing keeps two backups apart. -/
def Alerts.next (s : Alerts) : AlertEvent → Option Alerts
  | .syncStart =>
      if s.sync.isSome = true then none else some { s with sync := some s.lastNotifiedState }
  | .syncReload =>
      if s.sync.isSome = true then some { s with sync := some s.lastNotifiedState } else none
  | .syncEnd e =>
      match s.sync with
      | none => none
      | some loaded => some ({ s with sync := none }.endSync loaded e)
  | .backupStart => some { s with backups := s.backups ++ [s.lastNotifiedState] }
  | .backupReload i =>
      if i < s.backups.length then some { s with backups := s.backups.set i s.lastNotifiedState }
      else none
  | .backupEnd i success =>
      match s.backups[i]? with
      | none => none
      | some loaded => some ({ s with backups := s.backups.eraseIdx i }.endBackup loaded success)
  | .staleTick =>
      some ((notifyAccountProblem s s.lastNotifiedState "stale").mark s.lastNotifiedState
        (some "stale"))
  | .configure owners channels => some { s with owners := owners, channels := channels }

/-! ## Once for each entry into a state -/

/-- Nothing was sent for the key since the mark was last set to something else. -/
def Fresh (key : String) : List Entry → Prop
  | [] => True
  | .sent key' _ :: history => key' ≠ key ∧ Fresh key history
  | .marked mark :: history => mark ≠ some key ∨ Fresh key history

/-- Between two notifications of one problem the mark was set to something else. -/
def Deduped : List Entry → Prop
  | [] => True
  | .sent key _ :: history => Fresh key history ∧ Deduped history
  | .marked _ :: history => Deduped history

def syncKeys : List String := ["needs_reauth", "sync_error", "sync_paused"]

/-- A worker that has loaded the mark sends the key only when it is due. -/
def Due (history : List Entry) (loaded : Option String) (key : String) : Prop :=
  loaded = some key ∨ Fresh key history

structure Sound (s : Alerts) : Prop where
  mark : ∀ key, Due s.history s.lastNotifiedState key
  sync : ∀ loaded, s.sync = some loaded → ∀ key ∈ syncKeys, Due s.history loaded key
  backup : ∀ loaded ∈ s.backups, Due s.history loaded "backup_failed"
  one : s.backups.length ≤ 1
  deduped : Deduped s.history

/-- No token refresh fails, and no backup of the account starts while another one runs. -/
def Regular (s : Alerts) : AlertEvent → Prop
  | .syncEnd (.refreshFailed _) => False
  | .backupStart => s.backups = []
  | _ => True

variable {s s' : Alerts} {e : AlertEvent} {history : List Entry} {loaded : Option String}
  {key : String}

/-- A problem is sent when it is due, and the mark remembers it. -/
theorem notify_mark (hmark : ∀ k, Due s.history s.lastNotifiedState k)
    (hdeduped : Deduped s.history) (hdue : Due s.history loaded key) :
    let s' := (notifyAccountProblem s loaded key).mark loaded (some key)
    (∀ k, Due s'.history s'.lastNotifiedState k) ∧ Deduped s'.history ∧
      ∀ l k, k ≠ key → Due s.history l k → Due s'.history l k := by
  by_cases hloaded : loaded = some key
  · simp only [notifyAccountProblem, hloaded, if_true, Alerts.mark]
    exact ⟨hmark, hdeduped, fun _ _ _ h => h⟩
  · have hfresh : Fresh key s.history := hdue.resolve_left hloaded
    simp only [notifyAccountProblem, if_neg hloaded, Alerts.mark, Alerts.send]
    refine ⟨fun k => ?_, ⟨hfresh, hdeduped⟩, fun l k hk _ => .inr (.inl ?_)⟩
    · by_cases hk : k = key
      · exact .inl (congrArg some hk.symm)
      · exact .inr (.inl fun h => hk (Option.some.inj h).symm)
    · exact fun h => hk (Option.some.inj h).symm

@[simp] theorem notify_mark_sync (s : Alerts) (loaded : Option String) (key : String) :
    ((notifyAccountProblem s loaded key).mark loaded (some key)).sync = s.sync := by
  unfold notifyAccountProblem Alerts.mark
  split <;> rfl

@[simp] theorem notify_mark_backups (s : Alerts) (loaded : Option String) (key : String) :
    ((notifyAccountProblem s loaded key).mark loaded (some key)).backups = s.backups := by
  unfold notifyAccountProblem Alerts.mark
  split <;> rfl

/-- Whatever is cleared makes every problem due. -/
theorem Sound.clear (h : Sound s) (loaded : Option String) : Sound (s.mark loaded none) := by
  unfold Alerts.mark
  split
  · exact h
  · exact ⟨fun _ => .inr (.inl nofun), fun _ _ _ _ => .inr (.inl nofun),
      fun _ _ => .inr (.inl nofun), h.one, h.deduped⟩

theorem problemKey_mem (paused : Bool) : problemKey paused ∈ syncKeys := by
  cases paused <;> decide

theorem ne_of_mem_syncKeys (h : key ∈ syncKeys) : key ≠ "backup_failed" ∧ key ≠ "stale" := by
  revert key
  decide

theorem Sound.endSync (h : Sound s) (hloaded : ∀ key ∈ syncKeys, Due s.history loaded key)
    (hsync : s.sync = none) {e : SyncEnd} (he : ∀ terminal, e ≠ .refreshFailed terminal) :
    Sound (s.endSync loaded e) := by
  cases e with
  | completed => exact h.clear loaded
  | problem paused =>
      have hmem := problemKey_mem paused
      obtain ⟨hmark, hdeduped, hkept⟩ := notify_mark h.mark h.deduped (hloaded _ hmem)
      refine ⟨hmark, ?_, ?_, ?_, hdeduped⟩
      · simp [Alerts.endSync, hsync]
      · intro l hl
        simp only [Alerts.endSync, notify_mark_backups] at hl
        exact hkept l _ (ne_of_mem_syncKeys hmem).1.symm (h.backup l hl)
      · simpa [Alerts.endSync] using h.one
  | refreshFailed terminal => exact absurd rfl (he terminal)
  | quiet => exact h

theorem Sound.endBackup (h : Sound s) (hloaded : Due s.history loaded "backup_failed")
    (hbackups : s.backups = []) (success : Bool) : Sound (s.endBackup loaded success) := by
  unfold Alerts.endBackup
  split
  · split
    · exact h.clear loaded
    · exact h
  · obtain ⟨hmark, hdeduped, hkept⟩ := notify_mark h.mark h.deduped hloaded
    refine ⟨hmark, ?_, by simp [hbackups], by simp [hbackups], hdeduped⟩
    intro l hl key hkey
    rw [notify_mark_sync] at hl
    exact hkept l key (ne_of_mem_syncKeys hkey).1 (h.sync l hl key hkey)

theorem Sound.next (h : Sound s) (hregular : Regular s e) (hnext : s.next e = some s') :
    Sound s' := by
  cases e with
  | syncStart =>
      obtain ⟨_, hnext⟩ := Option.ite_none_left_eq_some.mp hnext
      obtain rfl := Option.some.inj hnext
      exact ⟨h.mark, fun l hl k _ => Option.some.inj hl ▸ h.mark k, h.backup, h.one, h.deduped⟩
  | syncReload =>
      obtain ⟨_, hnext⟩ := Option.ite_none_right_eq_some.mp hnext
      obtain rfl := Option.some.inj hnext
      exact ⟨h.mark, fun l hl k _ => Option.some.inj hl ▸ h.mark k, h.backup, h.one, h.deduped⟩
  | syncEnd e =>
      simp only [Alerts.next] at hnext
      cases hsync : s.sync with
      | none =>
          rw [hsync] at hnext
          cases hnext
      | some loaded =>
          rw [hsync] at hnext
          obtain rfl := Option.some.inj hnext
          have hidle : Sound { s with sync := none } :=
            ⟨h.mark, nofun, h.backup, h.one, h.deduped⟩
          refine hidle.endSync (h.sync loaded hsync) rfl ?_
          rintro terminal rfl
          exact hregular
  | backupStart =>
      obtain rfl := Option.some.inj hnext
      have hempty : s.backups = [] := hregular
      refine ⟨h.mark, h.sync, ?_, by simp [hempty], h.deduped⟩
      intro l hl
      rw [hempty] at hl
      exact List.mem_singleton.mp hl ▸ h.mark _
  | backupReload i =>
      obtain ⟨_, hnext⟩ := Option.ite_none_right_eq_some.mp hnext
      obtain rfl := Option.some.inj hnext
      refine ⟨h.mark, h.sync, ?_, by simpa using h.one, h.deduped⟩
      intro l hl
      obtain hold | rfl := List.mem_or_eq_of_mem_set hl
      · exact h.backup l hold
      · exact h.mark _
  | backupEnd i success =>
      simp only [Alerts.next] at hnext
      cases hi : s.backups[i]? with
      | none =>
          rw [hi] at hnext
          cases hnext
      | some loaded =>
          rw [hi] at hnext
          obtain rfl := Option.some.inj hnext
          have hlength := (List.getElem?_eq_some_iff.mp hi).1
          have hempty : s.backups.eraseIdx i = [] := by
            rw [List.eraseIdx_eq_nil_iff]
            have hone := h.one
            exact .inr ⟨by omega, by omega⟩
          have hrest : Sound { s with backups := s.backups.eraseIdx i } :=
            ⟨h.mark, h.sync, by simp [hempty], by simp [hempty], h.deduped⟩
          exact hrest.endBackup (h.backup loaded (List.mem_of_getElem? hi)) hempty success
  | staleTick =>
      obtain rfl := Option.some.inj hnext
      obtain ⟨hmark, hdeduped, hkept⟩ := notify_mark h.mark h.deduped (h.mark "stale")
      refine ⟨hmark, ?_, ?_, by simpa using h.one, hdeduped⟩
      · intro l hl key hkey
        rw [notify_mark_sync] at hl
        exact hkept l key (ne_of_mem_syncKeys hkey).2 (h.sync l hl key hkey)
      · intro l hl
        rw [notify_mark_backups] at hl
        exact hkept l _ (by decide) (h.backup l hl)
  | configure owners channels =>
      obtain rfl := Option.some.inj hnext
      exact ⟨h.mark, h.sync, h.backup, h.one, h.deduped⟩

def Alerts.Idle (s : Alerts) : Prop := s.sync = none ∧ s.backups = [] ∧ s.history = []

theorem Alerts.Idle.sound (h : s.Idle) : Sound s := by
  obtain ⟨hsync, hbackups, hhistory⟩ := h
  refine ⟨fun k => .inr ?_, by simp [hsync], by simp [hbackups], by simp [hbackups], ?_⟩
  · rw [hhistory]
    trivial
  · rw [hhistory]
    trivial

/-- A sync that fails to refresh its token. -/
def failedRefresh (terminal : Bool) : List AlertEvent :=
  [.syncStart, .syncEnd (.refreshFailed terminal)]

def alertsStart : Alerts where
  owners := ["u1"]
  channels := ⟨[("c1", { userId := "u1", events := ["sync_error", "stale"] })], by decide⟩

/-- The mark of the stale tick comes while the sync runs, and the error is told again after a
success. -/
def alertEvents : List AlertEvent :=
  [.syncStart, .staleTick, .syncEnd (.problem false), .syncStart, .syncEnd (.problem false),
    .syncStart, .syncEnd .completed, .syncStart, .syncEnd (.problem false)]

def regularCheck (s : Alerts) : AlertEvent → Bool
  | .syncEnd (.refreshFailed _) => false
  | .backupStart => s.backups.isEmpty
  | _ => true

theorem regular_of_check (s : Alerts) (e : AlertEvent) (h : regularCheck s e = true) :
    Regular s e := by
  cases e with
  | syncEnd e =>
      cases e with
      | refreshFailed terminal => cases h
      | _ => trivial
  | backupStart => exact List.isEmpty_iff.mp h
  | _ => trivial

end MailFallback.Notifications
