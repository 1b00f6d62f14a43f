import MailFallback.Library.Pipes
import MailFallback.Library.PyString
import MailFallback.Library.TextReader

/-! # restic with its output streamed

`_stream_restic` and `run_backup` of `restic_service`: the restic process, the thread that reads
its stdout and the thread that drains its stderr, which take their steps in any order. What
`json.loads` answers and what the callback does come from outside. -/

namespace MailFallback.ResticStream

open Pipes TextReader

inductive Channel where
  | stdout | stderr
  deriving DecidableEq, Repr

instance : Fintype Channel := ⟨{.stdout, .stderr}, fun c => by cases c <;> decide⟩

/-- A value as `json.loads` gives it. -/
inductive Json where
  | null
  | bool (b : Bool)
  | number (text : String)
  | string (s : String)
  | array (items : List Json)
  | object (fields : List (String × Json))

/-- `parsed.get("message_type") == "summary"`, where only a dict has a `get`. -/
def Json.isSummary? : Json → Option Bool
  | .object fields =>
      match fields.lookup "message_type" with
      | some (.string s) => some (s = "summary")
      | _ => some false
  | _ => none

/-- What the call is given: `json.loads`, with nothing for a `JSONDecodeError`, and the callback,
which returns or raises on the last of the messages that it was called with. -/
structure Config where
  loads : String → Option Json
  onEvent : List Json → Bool
  /-- The room in the two pipes. -/
  capacity : Channel → ℕ
  /-- What restic writes, and its exit code. -/
  script : List (Channel × Char)
  code : ℤ

/-- The local state of the loop over stdout. -/
structure Handled where
  messages : List Json := []
  summary : Json := .object []
  raised : Bool := false

variable (cfg : Config)

/-- One pass of the loop; nothing is read after an exception. -/
def handle (h : Handled) (rawLine : String) : Handled :=
  if h.raised then h else
  let line := PyString.strip rawLine
  if line = "" then h else
  match cfg.loads line with
  | none => h
  | some parsed =>
      let messages := h.messages ++ [parsed]
      if cfg.onEvent messages = false then { h with messages := messages, raised := true }
      else match parsed.isSummary? with
        | none => { h with messages := messages, raised := true }
        | some true => { h with messages := messages, summary := parsed }
        | some false => { h with messages := messages }

/-- `_STDERR_TAIL_LINES` -/
def stderrTailLines : ℕ := 200

inductive Phase where
  | reading | waiting | joining | returned
  deriving DecidableEq, Repr

inductive Ending where
  | exited | killed
  deriving DecidableEq, Repr

structure State where
  pipes : Pipes.State Channel Char
  ending : Option Ending := none
  main : Phase := .reading
  stdout : Reader × Handled := ({}, {})
  stderr : Reader × List String := ({}, [])
  /-- The second thread has ended. -/
  drained : Bool := false

def start : State := { pipes := Pipes.start cfg.script }

inductive Event where
  | process | exit | kill
  | readStdout | endStdout | wait | join
  /-- `join(timeout=5)` gives up. -/
  | timeout
  | readStderr | endStderr
  deriving DecidableEq, Repr

/-- The `finally` clause begins. -/
def stopReading (s : State) : State :=
  { s with pipes := close .stdout s.pipes, main := .waiting }

def next (s : State) : Event → Option State
  | .process => (write cfg.capacity s.pipes).map fun p => { s with pipes := p }
  | .exit => (Pipes.exit s.pipes).map fun p => { s with pipes := p, ending := some .exited }
  | .kill => (Pipes.kill s.pipes).map fun p => { s with pipes := p, ending := some .killed }
  | .readStdout =>
      if s.main = .reading then
        (read .stdout s.pipes).map fun r =>
          let stdout := feed (handle cfg) s.stdout r.1
          let s' := { s with pipes := r.2, stdout := stdout }
          if stdout.2.raised then stopReading s' else s'
      else none
  | .endStdout =>
      if s.main = .reading ∧ atEnd .stdout s.pipes = true then
        some (stopReading { s with stdout := ({}, flush (handle cfg) s.stdout) })
      else none
  | .wait => if s.main = .waiting ∧ s.pipes.gone = true then some { s with main := .joining } else none
  | .join => if s.main = .joining ∧ s.drained = true then some { s with main := .returned } else none
  | .timeout => if s.main = .joining then some { s with main := .returned } else none
  | .readStderr =>
      if s.drained = false ∧ s.main ≠ .returned then
        (read .stderr s.pipes).map fun r =>
          { s with pipes := r.2, stderr := feed (push stderrTailLines) s.stderr r.1 }
      else none
  | .endStderr =>
      if s.drained = false ∧ s.main ≠ .returned ∧ atEnd .stderr s.pipes = true then
        some { s with stderr := ({}, flush (push stderrTailLines) s.stderr), drained := true }
      else none

/-- The events of a run, in their order. -/
def run (events : List Event) : Option State := events.foldlM (next cfg) (start cfg)

/-- `proc.wait()`, with the code of a process that `SIGKILL` ended. -/
def returncode (s : State) : ℤ := if s.ending = some .killed then -9 else cfg.code

/-- `run_backup` after a call that returned: the exception that the loop let through, the text
of its own `RuntimeError`, or the summary. -/
inductive Outcome where
  | raised
  | failed (stderrTail : String)
  | summary (summary : Json)

def runBackup (s : State) : Outcome :=
  if s.stdout.2.raised then .raised
  else if returncode cfg s ≠ 0 then .failed (PyString.strip (String.join s.stderr.2))
  else .summary s.stdout.2.summary

variable {cfg} {s t : State}

/-! ## What holds in every state -/

theorem handle_of_raised {h : Handled} (hraised : h.raised = true) (line : String) :
    handle cfg h line = h := by
  unfold handle
  rw [if_pos hraised]

/-- Where the first thread is, and what it has made of what restic wrote. -/
def MainSound (cfg : Config) (s : State) : Prop :=
  (s.main = .reading → s.pipes.shut .stdout = false ∧ s.stdout.2.raised = false ∧
    s.stdout = (s.pipes.received .stdout).foldl (feed (handle cfg)) ({}, {})) ∧
  (s.main ≠ .reading → s.pipes.shut .stdout = true ∧
    ((s.stdout.2.raised = true ∧ ∃ cs, cs <+: along .stdout s.pipes.sent ∧
      s.stdout = cs.foldl (feed (handle cfg)) ({}, {})) ∨
    (s.pipes.gone = true ∧
      s.stdout.2 = (fileLines (along .stdout s.pipes.sent)).foldl (handle cfg) {})))

/-- The same for the second thread. -/
def DrainSound (s : State) : Prop :=
  s.pipes.shut .stderr = false ∧
  (s.drained = false →
    s.stderr = (s.pipes.received .stderr).foldl (feed (push stderrTailLines)) ({}, [])) ∧
  (s.drained = true → s.pipes.gone = true ∧
    s.stderr.2 = (fileLines (along .stderr s.pipes.sent)).foldl (push stderrTailLines) [])

/-- How the process ended. -/
def EndingSound (s : State) : Prop :=
  (s.pipes.gone = true ↔ s.ending ≠ none) ∧ (s.ending = some .exited → s.pipes.writes = []) ∧
  (s.main = .joining ∨ s.main = .returned → s.pipes.gone = true)

structure Sound (cfg : Config) (s : State) : Prop where
  conserved : Conserved cfg.script s.pipes
  main : MainSound cfg s
  drain : DrainSound s
  ending : EndingSound s

theorem sound_start (cfg : Config) : Sound cfg (start cfg) where
  conserved := conserved_start _
  main := by simp [MainSound, start, Pipes.start]
  drain := by simp [DrainSound, start, Pipes.start]
  ending := by simp [EndingSound, start, Pipes.start]

theorem sound_process (h : Sound cfg s) (hnext : next cfg s .process = some t) : Sound cfg t := by
  obtain ⟨p, hp, rfl⟩ := Option.map_eq_some_iff.mp hnext
  obtain ⟨i, a, hgone, hwrites, hsent, hreceived, hshut, hgone', -⟩ := write_eq hp
  obtain ⟨hcons, ⟨hreading, hnot⟩, ⟨hopen, hdraining, hdrained⟩, hend, hexit, hlate⟩ := h
  have hlive : ∀ {P : Prop}, s.pipes.gone = true → P := fun hg => by
    rw [hgone] at hg
    cases hg
  refine ⟨conserved_write hcons hp, ⟨fun hm => ?_, fun hm => ?_⟩, ⟨?_, fun hd => ?_, fun hd => ?_⟩,
    ?_, fun he => ?_, fun hm => hlive (hlate hm)⟩
  · simpa only [hshut, hreceived] using hreading hm
  · obtain ⟨hclosed, ⟨hraised, cs, hcs, hfold⟩ | ⟨hg, -⟩⟩ := hnot hm
    · refine ⟨by rwa [hshut], .inl ⟨hraised, cs, ?_, hfold⟩⟩
      rw [hsent, along_append]
      exact hcs.trans (List.prefix_append ..)
    · exact hlive hg
  · simpa only [hshut] using hopen
  · simpa only [hreceived] using hdraining hd
  · exact hlive (hdrained hd).1
  · rw [hgone, ← hgone'] at hend
    exact hend
  · exact hlive (hend.mpr (by rw [he]; simp))

/-- The process is gone, whether it ended or was killed. -/
theorem sound_gone {e : Ending} (h : Sound cfg s) (he : e = .exited → s.pipes.writes = []) :
    Sound cfg { s with pipes := { s.pipes with gone := true }, ending := some e } := by
  obtain ⟨hcons, ⟨hreading, hnot⟩, ⟨hopen, hdraining, hdrained⟩, -⟩ := h
  refine ⟨conserved_gone hcons, ⟨hreading, fun hm => ?_⟩,
    ⟨hopen, hdraining, fun hd => ⟨rfl, (hdrained hd).2⟩⟩, ⟨?_, fun hx => ?_, fun _ => rfl⟩⟩
  · exact (hnot hm).imp id (Or.imp id fun hend => ⟨rfl, hend.2⟩)
  · simp
  · exact he (Option.some.inj hx)

theorem sound_readStdout (h : Sound cfg s) (hnext : next cfg s .readStdout = some t) :
    Sound cfg t := by
  obtain ⟨hmain, hmap⟩ := Option.ite_none_right_eq_some.mp hnext
  obtain ⟨⟨c, p⟩, hp, ht⟩ := Option.map_eq_some_iff.mp hmap
  obtain ⟨hshut, rest, hheld, rfl⟩ := read_eq hp
  have hcons' := conserved_read h.conserved hp
  obtain ⟨-, ⟨hreading, -⟩, ⟨hopen, hdraining, hdrained⟩, hend, hexit, hlate⟩ := h
  obtain ⟨-, -, hfold⟩ := hreading hmain
  have hfold' : feed (handle cfg) s.stdout c =
      (s.pipes.received .stdout ++ [c]).foldl (feed (handle cfg)) ({}, {}) := by
    rw [List.foldl_append, ← hfold]
    rfl
  have hlive : s.main ≠ .joining ∧ s.main ≠ .returned := by
    rw [hmain]
    exact ⟨nofun, nofun⟩
  have hother : ∀ (f : Channel → List Char) (l : List Char),
      Function.update f .stdout l .stderr = f .stderr := fun f l =>
    Function.update_of_ne (by decide) _ _
  subst ht
  dsimp only
  by_cases hraised : (feed (handle cfg) s.stdout c).2.raised = true
  · rw [if_pos hraised]
    refine ⟨conserved_close hcons', ⟨nofun, fun _ => ⟨by simp [stopReading, close], .inl ⟨hraised, _, ?_, hfold'⟩⟩⟩,
      ⟨?_, fun hd => ?_, fun hd => hdrained hd⟩, hend, hexit, nofun⟩
    · have hpre := hcons'.1 .stdout
      simp only [Function.update_self] at hpre
      exact (List.prefix_append ..).trans hpre
    · simpa [stopReading, close] using hopen
    · simpa only [stopReading, close, hother] using hdraining hd
  · rw [if_neg hraised]
    refine ⟨hcons', ⟨fun _ => ⟨hshut, by simpa using hraised, ?_⟩, fun hm => absurd hmain hm⟩,
      ⟨hopen, fun hd => ?_, hdrained⟩, hend, hexit, hlate⟩
    · simpa only [Function.update_self] using hfold'
    · simpa only [hother] using hdraining hd

theorem sound_endStdout (h : Sound cfg s) (hnext : next cfg s .endStdout = some t) :
    Sound cfg t := by
  obtain ⟨⟨hmain, hatEnd⟩, ht⟩ := Option.ite_none_right_eq_some.mp hnext
  obtain rfl := Option.some.inj ht
  obtain ⟨hcons, ⟨hreading, -⟩, ⟨hopen, hdraining, hdrained⟩, hend, hexit, hlate⟩ := h
  obtain ⟨hshut, -, hfold⟩ := hreading hmain
  have hgone : s.pipes.gone = true := (Bool.and_eq_true_iff.mp hatEnd).1
  have hall := received_of_atEnd hcons hshut hatEnd
  refine ⟨conserved_close hcons, ⟨nofun, fun _ => ⟨by simp [stopReading, close], .inr ⟨hgone, ?_⟩⟩⟩,
    ⟨by simpa [stopReading, close] using hopen, hdraining, hdrained⟩, hend, hexit, fun _ => hgone⟩
  change flush (handle cfg) s.stdout = _
  rw [hfold, flush_fileLines, hall]
  rfl

theorem sound_main {m : Phase} (h : Sound cfg s) (hold : s.main ≠ .reading)
    (hgone : s.pipes.gone = true) (hm : m ≠ .reading) : Sound cfg { s with main := m } :=
  ⟨h.conserved, ⟨fun hr => absurd hr hm, fun _ => h.main.2 hold⟩, h.drain, h.ending.1, h.ending.2.1,
    fun _ => hgone⟩

theorem sound_readStderr (h : Sound cfg s) (hnext : next cfg s .readStderr = some t) :
    Sound cfg t := by
  obtain ⟨⟨hdrain, -⟩, hmap⟩ := Option.ite_none_right_eq_some.mp hnext
  obtain ⟨⟨c, p⟩, hp, rfl⟩ := Option.map_eq_some_iff.mp hmap
  obtain ⟨-, rest, -, rfl⟩ := read_eq hp
  have hcons' := conserved_read h.conserved hp
  obtain ⟨-, ⟨hreading, hnot⟩, ⟨hopen, hdraining, -⟩, hend, hexit, hlate⟩ := h
  refine ⟨hcons', ⟨fun hm => ?_, hnot⟩, ⟨hopen, fun _ => ?_, fun hd => ?_⟩, hend, hexit, hlate⟩
  · have hother : ∀ l, Function.update s.pipes.received .stderr l .stdout =
        s.pipes.received .stdout := fun l => Function.update_of_ne (by decide) _ _
    simpa only [hother] using hreading hm
  · dsimp only
    rw [Function.update_self, List.foldl_append, ← hdraining hdrain]
    rfl
  · rw [hdrain] at hd
    cases hd

theorem sound_endStderr (h : Sound cfg s) (hnext : next cfg s .endStderr = some t) :
    Sound cfg t := by
  obtain ⟨⟨hdrain, -, hatEnd⟩, ht⟩ := Option.ite_none_right_eq_some.mp hnext
  obtain rfl := Option.some.inj ht
  obtain ⟨hcons, hmain, ⟨hopen, hdraining, -⟩, hending⟩ := h
  refine ⟨hcons, hmain, ⟨hopen, nofun, fun _ => ⟨(Bool.and_eq_true_iff.mp hatEnd).1, ?_⟩⟩, hending⟩
  change flush (push stderrTailLines) s.stderr = _
  rw [hdraining hdrain, flush_fileLines, received_of_atEnd hcons hopen hatEnd]

theorem sound_next (h : Sound cfg s) {e : Event} (hnext : next cfg s e = some t) :
    Sound cfg t := by
  cases e with
  | process => exact sound_process h hnext
  | exit =>
      obtain ⟨p, hp, rfl⟩ := Option.map_eq_some_iff.mp hnext
      obtain ⟨-, hwrites, rfl⟩ := exit_eq hp
      exact sound_gone h fun _ => hwrites
  | kill =>
      obtain ⟨p, hp, rfl⟩ := Option.map_eq_some_iff.mp hnext
      obtain ⟨-, rfl⟩ := kill_eq hp
      exact sound_gone h nofun
  | readStdout => exact sound_readStdout h hnext
  | endStdout => exact sound_endStdout h hnext
  | wait =>
      obtain ⟨⟨hmain, hgone⟩, ht⟩ := Option.ite_none_right_eq_some.mp hnext
      obtain rfl := Option.some.inj ht
      exact sound_main h (by rw [hmain]; nofun) hgone nofun
  | join =>
      obtain ⟨⟨hmain, -⟩, ht⟩ := Option.ite_none_right_eq_some.mp hnext
      obtain rfl := Option.some.inj ht
      exact sound_main h (by rw [hmain]; nofun) (h.ending.2.2 (.inl hmain)) nofun
  | timeout =>
      obtain ⟨hmain, ht⟩ := Option.ite_none_right_eq_some.mp hnext
      obtain rfl := Option.some.inj ht
      exact sound_main h (by rw [hmain]; nofun) (h.ending.2.2 (.inl hmain)) nofun
  | readStderr => exact sound_readStderr h hnext
  | endStderr => exact sound_endStderr h hnext

theorem foldlM_sound {events : List Event} (h : Sound cfg s)
    (hrun : events.foldlM (next cfg) s = some t) : Sound cfg t := by
  induction events generalizing s with
  | nil =>
      obtain rfl := Option.some.inj hrun
      exact h
  | cons e events ih =>
      obtain ⟨s', hs', hrest⟩ := Option.bind_eq_some_iff.mp hrun
      exact ih (sound_next h hs') hrest

theorem sound_run {events : List Event} (h : run cfg events = some s) : Sound cfg s :=
  foldlM_sound (sound_start cfg) h

/-! ## No deadlock -/

/-- The steps that neither a killer nor a clock takes. -/
def Event.ordinary : Event → Bool
  | .kill | .timeout => false
  | _ => true

/-- As long as the call has not returned, one of the three can go on. -/
theorem exists_ordinary (hcap : ∀ c, 0 < cfg.capacity c) (h : Sound cfg s)
    (hmain : s.main ≠ .returned) :
    ∃ e, e.ordinary = true ∧ (next cfg s e).isSome = true := by
  have hstderr : s.drained = false → s.pipes.gone = true ∨ s.pipes.held .stderr ≠ [] →
      ∃ e, e.ordinary = true ∧ (next cfg s e).isSome = true := by
    intro hdrained hready
    rcases read_or_atEnd h.drain.1 hready with hread | hend
    · exact ⟨.readStderr, rfl, by simpa [next, hdrained, hmain] using hread⟩
    · exact ⟨.endStderr, rfl, by simp [next, hdrained, hmain, hend]⟩
  have hstdout : s.main = .reading → s.pipes.gone = true ∨ s.pipes.held .stdout ≠ [] →
      ∃ e, e.ordinary = true ∧ (next cfg s e).isSome = true := by
    intro hm hready
    rcases read_or_atEnd (h.main.1 hm).1 hready with hread | hend
    · exact ⟨.readStdout, rfl, by simpa [next, hm] using hread⟩
    · exact ⟨.endStdout, rfl, by simp [next, hm, hend]⟩
  -- a live process that cannot go on waits for a pipe that one of the threads reads
  have hlive : s.pipes.gone = false → ∃ e, e.ordinary = true ∧ (next cfg s e).isSome = true := by
    intro hgone
    rcases process_or_full hcap hgone with hexit | hwrite | ⟨c, hopen, hheld⟩
    · exact ⟨.exit, rfl, by simpa [next] using hexit⟩
    · exact ⟨.process, rfl, by simpa [next] using hwrite⟩
    · cases c with
      | stdout =>
          refine hstdout ?_ (.inr hheld)
          by_contra hm
          rw [(h.main.2 hm).1] at hopen
          cases hopen
      | stderr =>
          refine hstderr ?_ (.inr hheld)
          cases hd : s.drained with
          | false => rfl
          | true =>
              rw [(h.drain.2.2 hd).1] at hgone
              cases hgone
  cases hgone : s.pipes.gone with
  | false => exact hlive hgone
  | true =>
      cases hm : s.main with
      | reading => exact hstdout hm (.inl hgone)
      | waiting => exact ⟨.wait, rfl, by simp [next, hm, hgone]⟩
      | joining =>
          cases hd : s.drained with
          | true => exact ⟨.join, rfl, by simp [next, hm, hd]⟩
          | false => exact hstderr hd (.inl hgone)
      | returned => exact absurd hm hmain

def Phase.left : Phase → ℕ
  | .reading => 3
  | .waiting => 2
  | .joining => 1
  | .returned => 0

/-- What is left to do. -/
def rank (s : State) : ℕ := load s.pipes + s.main.left + (!s.drained).toNat

theorem rank_next {e : Event} (hnext : next cfg s e = some t) : rank t < rank s := by
  cases e with
  | process =>
      obtain ⟨p, hp, rfl⟩ := Option.map_eq_some_iff.mp hnext
      have hload := load_write hp
      simp only [rank]
      omega
  | exit =>
      obtain ⟨p, hp, rfl⟩ := Option.map_eq_some_iff.mp hnext
      obtain ⟨hgone, -, rfl⟩ := exit_eq hp
      have hload := load_gone hgone
      simp only [rank]
      omega
  | kill =>
      obtain ⟨p, hp, rfl⟩ := Option.map_eq_some_iff.mp hnext
      obtain ⟨hgone, rfl⟩ := kill_eq hp
      have hload := load_gone hgone
      simp only [rank]
      omega
  | readStdout =>
      obtain ⟨hmain, hmap⟩ := Option.ite_none_right_eq_some.mp hnext
      obtain ⟨⟨c, p⟩, hp, rfl⟩ := Option.map_eq_some_iff.mp hmap
      have hload := load_read hp
      dsimp only
      split <;> simp only [rank, stopReading, load_close, hmain, Phase.left] <;> omega
  | endStdout =>
      obtain ⟨⟨hmain, -⟩, ht⟩ := Option.ite_none_right_eq_some.mp hnext
      obtain rfl := Option.some.inj ht
      simp only [rank, stopReading, load_close, hmain, Phase.left]
      omega
  | wait =>
      obtain ⟨⟨hmain, -⟩, ht⟩ := Option.ite_none_right_eq_some.mp hnext
      obtain rfl := Option.some.inj ht
      simp only [rank, hmain, Phase.left]
      omega
  | join =>
      obtain ⟨⟨hmain, -⟩, ht⟩ := Option.ite_none_right_eq_some.mp hnext
      obtain rfl := Option.some.inj ht
      simp only [rank, hmain, Phase.left]
      omega
  | timeout =>
      obtain ⟨hmain, ht⟩ := Option.ite_none_right_eq_some.mp hnext
      obtain rfl := Option.some.inj ht
      simp only [rank, hmain, Phase.left]
      omega
  | readStderr =>
      obtain ⟨⟨hdrain, -⟩, hmap⟩ := Option.ite_none_right_eq_some.mp hnext
      obtain ⟨⟨c, p⟩, hp, rfl⟩ := Option.map_eq_some_iff.mp hmap
      have hload := load_read hp
      simp only [rank]
      omega
  | endStderr =>
      obtain ⟨⟨hdrain, -, -⟩, ht⟩ := Option.ite_none_right_eq_some.mp hnext
      obtain rfl := Option.some.inj ht
      simp [rank, hdrain]

theorem foldlM_length {events : List Event} (hrun : events.foldlM (next cfg) s = some t) :
    events.length + rank t ≤ rank s := by
  induction events generalizing s with
  | nil =>
      obtain rfl := Option.some.inj hrun
      simp
  | cons e events ih =>
      obtain ⟨s', hs', hrest⟩ := Option.bind_eq_some_iff.mp hrun
      have hfirst := rank_next hs'
      have hlater := ih hrest
      rw [List.length_cons]
      omega

/-- The message of a line, if it has one. -/
def parsed (cfg : Config) (rawLine : String) : Option Json :=
  let line := PyString.strip rawLine
  if line = "" then none else cfg.loads line

/-- The last summary among the messages. -/
def lastSummary (messages : List Json) : Json :=
  (messages.filter fun j => j.isSummary? == some true).getLastD (.object [])

theorem foldl_handle_of_raised {hd : Handled} (lines : List String) (hraised : hd.raised = true) :
    lines.foldl (handle cfg) hd = hd := by
  induction lines with
  | nil => rfl
  | cons line lines ih => rw [List.foldl_cons, handle_of_raised hraised, ih]

theorem handle_of_unparsed {hd : Handled} {line : String} (h : parsed cfg line = none) :
    handle cfg hd line = hd := by
  unfold parsed at h
  unfold handle
  grind

theorem handle_of_parsed {hd : Handled} {line : String} {j : Json} (hraised : hd.raised = false)
    (h : parsed cfg line = some j) :
    (handle cfg hd line).messages = hd.messages ++ [j] ∧
      ((handle cfg hd line).raised = false →
        (handle cfg hd line).summary = if j.isSummary? = some true then j else hd.summary) := by
  obtain ⟨hline, hloads⟩ : PyString.strip line ≠ "" ∧ cfg.loads (PyString.strip line) = some j := by
    unfold parsed at h
    grind
  unfold handle
  simp only [hraised, hline, hloads]
  by_cases hevent : cfg.onEvent (hd.messages ++ [j]) = false
  · simp [hevent]
  · rcases hkind : j.isSummary? with _ | _ | _ <;> simp [hevent]

/-- Every message reaches the callback in its turn until one of them raises, and the summary is
the last of its kind. -/
theorem foldl_handle (cfg : Config) (lines : List String) (hd : Handled)
    (hsummary : hd.raised = false → hd.summary = lastSummary hd.messages) :
    (lines.foldl (handle cfg) hd).messages <+: hd.messages ++ lines.filterMap (parsed cfg) ∧
    ((lines.foldl (handle cfg) hd).raised = false →
      (lines.foldl (handle cfg) hd).messages = hd.messages ++ lines.filterMap (parsed cfg) ∧
      (lines.foldl (handle cfg) hd).summary =
        lastSummary (lines.foldl (handle cfg) hd).messages) := by
  induction lines generalizing hd with
  | nil => simpa using hsummary
  | cons line lines ih =>
      rw [List.foldl_cons]
      cases hraised : hd.raised with
      | true =>
          rw [handle_of_raised hraised]
          rw [foldl_handle_of_raised lines hraised, hraised]
          exact ⟨List.prefix_append .., nofun⟩
      | false =>
          cases hparsed : parsed cfg line with
          | none =>
              rw [handle_of_unparsed hparsed, List.filterMap_cons_none hparsed]
              exact ih hd hsummary
          | some j =>
              obtain ⟨hmessages, hlast⟩ := handle_of_parsed hraised hparsed
              have hnext := ih (handle cfg hd line) fun hr => by
                rw [hlast hr, hmessages, hsummary hraised]
                by_cases hj : j.isSummary? = some true <;>
                  simp [lastSummary, List.filter_append, hj]
              rw [hmessages] at hnext
              rw [List.filterMap_cons_some hparsed]
              simpa using hnext

/-- What the loop has made of stdout when it is over, whether it read it all or not. -/
theorem Sound.stdout_eq (h : Sound cfg s) (hmain : s.main ≠ .reading) :
    s.stdout.2 = (fileLines (along .stdout s.pipes.sent)).foldl (handle cfg) {} := by
  rcases (h.main.2 hmain).2 with ⟨hraised, cs, ⟨rest, hrest⟩, hfold⟩ | ⟨-, hall⟩
  · rw [← hrest]
    exact (foldl_of_deaf (handle cfg) hfold.symm (handle_of_raised hraised)).symm
  · exact hall

theorem Sound.stderr_eq (h : Sound cfg s) (hdrained : s.drained = true) :
    s.stderr.2 = keepLast stderrTailLines (fileLines (along .stderr s.pipes.sent)) := by
  rw [(h.drain.2.2 hdrained).2]
  exact foldl_push _ _ []

theorem Sound.sent_eq (h : Sound cfg s) (hexited : s.ending = some .exited) :
    s.pipes.sent = cfg.script := by
  have hscript := h.conserved.2.2
  rwa [h.ending.2.1 hexited, List.append_nil] at hscript

/-- `run_backup` over the whole output of restic, read one stream after the other. -/
def sequential (cfg : Config) : Outcome :=
  let h := (fileLines (along .stdout cfg.script)).foldl (handle cfg) {}
  if h.raised then .raised
  else if cfg.code ≠ 0 then
    .failed (PyString.strip (String.join
      (keepLast stderrTailLines (fileLines (along .stderr cfg.script)))))
  else .summary h.summary

def sampleConfig : Config where
  loads := fun line => if line = "{}" then some (.object [("message_type", .string "summary")]) else none
  onEvent := fun _ => true
  capacity := fun _ => 1
  script := [(.stderr, 'w'), (.stdout, '{'), (.stderr, 'x'), (.stdout, '}')]
  code := 0

def sampleEvents : List Event :=
  [.process, .process, .readStderr, .process, .readStdout, .process, .exit, .readStderr, .readStdout,
    .endStdout, .endStderr, .wait, .join]

end MailFallback.ResticStream
