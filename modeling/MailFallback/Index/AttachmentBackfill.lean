import MailFallback.Library.Transition
import MailFallback.Search.Attachments

/-! # The backfill of the attachments

Messages that were indexed before attachments were have theirs read later, and what is read is
committed a thousand at a time. A run that is cut off loses the rest, and the next one goes on from
there. -/

namespace MailFallback.AttachmentBackfill

open Storage Query Index Snapshots Downloads Transition

variable {H : Type} [DecidableEq H]

/-! ## One pass -/

/-- The maildir of the account, as a pass finds it. -/
structure Disk where
  pathExists : String → Bool
  /-- The content of a file that can be read. -/
  file : String → Option (List UInt8)

/-- The session of a pass. -/
structure Pass (H : Type) where
  committed : MailIndex H
  view : MailIndex H
  processed : ℕ := 0

variable (mime : Mime) (maildirPath : String) (order : Unordered (H × MessageRow))

def isPending (row : MessageRow) : Bool := row.deletedAt.isNone && row.attachmentsIndexedAt.isNone

/-- The rows that the pass visits. -/
def pending (index : MailIndex H) : List (H × MessageRow) :=
  order.list
    ((index.messages.rows : Multiset (H × MessageRow)).filter fun r => isPending r.2 = true)

/-- The file under the name that the index knows. -/
def locate (disk : Disk) (row : MessageRow) : Option String :=
  ((messageDirs maildirPath row.folderPath).map fun d => Posix.join d row.maildirFilename).find?
    disk.pathExists

/-- What a pass finds of a message: nothing where there is no file, and no attachments in a file
that cannot be parsed. -/
def found (disk : Disk) (row : MessageRow) : Option (Except Unit (List Attachment)) :=
  (locate maildirPath disk row).map fun path =>
    (parseAttachments mime (disk.file path)).map fun atts => atts.getD []

def mark (atts : List Attachment) (now : Time) (row : MessageRow) : MessageRow :=
  { row with hasAttachments := !atts.isEmpty, attachmentsIndexedAt := some now }

/-- The rows of a message are deleted and written anew. -/
def write (index : MailIndex H) (h : H) (atts : List Attachment) (now : Time) : MailIndex H :=
  { index with
    messages := index.messages.modify h (mark atts now)
    attachments := index.attachments.filter (fun r => r.1 ≠ h) ++ atts.map fun a => (h, a) }

def visit (disk : Disk) (now : Time) (p : Pass H) (r : H × MessageRow) : Except Unit (Pass H) :=
  match found mime maildirPath disk r.2 with
  | none => .ok p
  | some read =>
      read.map fun atts =>
        let view := write p.view r.1 atts now
        { committed := if (p.processed + 1) % batchSize = 0 then view else p.committed
          view := view
          processed := p.processed + 1 }

/-- The loop, with whether it came to its end: an exception of the parser leaves it. -/
def visitAll (disk : Disk) (now : Time) : List (H × MessageRow) → Pass H → Pass H × Bool
  | [], p => (p, true)
  | r :: rows, p =>
      match visit mime maildirPath disk now p r with
      | .ok p => visitAll disk now rows p
      | .error _ => (p, false)

/-- `backfill_attachments`, and the same when the process ends after some of the rows. -/
inductive PassEvent where
  | complete (disk : Disk) (now : Time)
  | cut (disk : Disk) (now : Time) (visited : ℕ)

def PassEvent.disk : PassEvent → Disk
  | .complete disk _ | .cut disk _ _ => disk

/-- What is in the database after a pass. -/
def next (index : MailIndex H) : PassEvent → Option (MailIndex H)
  | .complete disk now =>
      let r := visitAll mime maildirPath disk now (pending order index) ⟨index, index, 0⟩
      -- The last commit, or the rollback.
      some (if r.2 = true then r.1.view else r.1.committed)
  | .cut disk now visited =>
      let r := visitAll mime maildirPath disk now ((pending order index).take visited)
        ⟨index, index, 0⟩
      some r.1.committed

/-! ## What a pass does to one message -/

def rowsOf (index : MailIndex H) (h : H) : List Attachment :=
  (index.attachments.filter fun r => r.1 = h).map Prod.snd

variable {mime maildirPath order}
variable {disk : Disk} {now : Time} {index s t u : MailIndex H} {h k : H} {row : MessageRow}

structure Same (s t : MailIndex H) (h : H) : Prop where
  message : t.messages.get? h = s.messages.get? h
  attachments : rowsOf t h = rowsOf s h

variable (mime maildirPath) in
/-- The message was pending, and its rows are what its file holds. -/
structure Marked (disk : Disk) (s t : MailIndex H) (h : H) (row : MessageRow)
    (atts : List Attachment) : Prop where
  start : s.messages.get? h = some row
  waiting : isPending row = true
  read : found mime maildirPath disk row = some (.ok atts)
  message : ∃ now, t.messages.get? h = some (mark atts now row)
  attachments : rowsOf t h = atts

variable (mime maildirPath) in
def Advanced (disk : Disk) (s t : MailIndex H) : Prop :=
  ∀ h, Same s t h ∨ ∃ row atts, Marked mime maildirPath disk s t h row atts

theorem rowsOf_write_self (atts : List Attachment) : rowsOf (write index h atts now) h = atts := by
  have hgone : (index.attachments.filter (fun r => decide (r.1 ≠ h))).filter
      (fun r => decide (r.1 = h)) = [] := by
    simp [List.filter_filter]
  rw [rowsOf, write, List.filter_append, hgone, List.nil_append, List.filter_map]
  simp [Function.comp_def]

theorem rowsOf_write_of_ne {h' : H} (atts : List Attachment) (hne : h' ≠ h) :
    rowsOf (write index h atts now) h' = rowsOf index h' := by
  have hkept : (index.attachments.filter (fun r => decide (r.1 ≠ h))).filter
      (fun r => decide (r.1 = h')) = index.attachments.filter fun r => decide (r.1 = h') := by
    rw [List.filter_filter]
    refine List.filter_congr fun r _ => ?_
    by_cases hr : r.1 = h'
    · simp [hr, hne]
    · simp [hr]
  have hnew : (atts.map fun a => (h, a)).filter (fun r => decide (r.1 = h')) = [] := by
    simp [List.filter_map, Function.comp_def, Ne.symm hne]
  rw [rowsOf, write, List.filter_append, hkept, hnew, List.append_nil]
  rfl

theorem same_refl (s : MailIndex H) (h : H) : Same s s h := ⟨rfl, rfl⟩

theorem same_write {h' : H} (atts : List Attachment) (hne : h' ≠ h) (hsame : Same s t h') :
    Same s (write t h atts now) h' :=
  ⟨by rw [write, Table.get?_modify_of_ne _ _ hne]; exact hsame.message,
    by rw [rowsOf_write_of_ne atts hne]; exact hsame.attachments⟩

theorem marked_write_of_ne {h' : H} {atts atts' : List Attachment} (hne : h' ≠ h)
    (hmarked : Marked mime maildirPath disk s t h' row atts') :
    Marked mime maildirPath disk s (write t h atts now) h' row atts' where
  start := hmarked.start
  waiting := hmarked.waiting
  read := hmarked.read
  message := by
    rw [write, Table.get?_modify_of_ne _ _ hne]
    exact hmarked.message
  attachments := by
    rw [rowsOf_write_of_ne atts hne]
    exact hmarked.attachments

/-- A message that waits is written from its file. -/
theorem marked_write {atts : List Attachment} (hstart : s.messages.get? h = some row)
    (hwaiting : isPending row = true) (hread : found mime maildirPath disk row = some (.ok atts))
    (hsame : Same s t h) : Marked mime maildirPath disk s (write t h atts now) h row atts where
  start := hstart
  waiting := hwaiting
  read := hread
  message := ⟨now, by rw [write, Table.get?_modify_self, hsame.message, hstart]; rfl⟩
  attachments := rowsOf_write_self atts

/-! ## The loop -/

variable (mime maildirPath) in
/-- Between two rows: what lies ahead is as it was, and nothing is behind but what was read. -/
structure Midway (disk : Disk) (s : MailIndex H) (rows : List (H × MessageRow)) (p : Pass H) :
    Prop where
  committed : Advanced mime maildirPath disk s p.committed
  view : Advanced mime maildirPath disk s p.view
  ahead : ∀ r ∈ rows, Same s p.view r.1
  behind : ∀ h row, s.messages.get? h = some row → isPending row = true → (h, row) ∉ rows →
    found mime maildirPath disk row = none ∨
      ∃ atts, Marked mime maildirPath disk s p.view h row atts

theorem Midway.of_visit {r : H × MessageRow} {rows : List (H × MessageRow)} {p p' : Pass H}
    (hp : Midway mime maildirPath disk s (r :: rows) p)
    (hr : s.messages.get? r.1 = some r.2 ∧ isPending r.2 = true)
    (hnodup : ((r :: rows).map Prod.fst).Nodup)
    (hvisit : visit mime maildirPath disk now p r = .ok p') :
    Midway mime maildirPath disk s rows p' := by
  obtain ⟨h, row⟩ := r
  rw [List.map_cons, List.nodup_cons] at hnodup
  have hdistinct : ∀ r' ∈ rows, r'.1 ≠ h := fun r' hr' heq =>
    hnodup.1 (heq ▸ List.mem_map.mpr ⟨r', hr', rfl⟩)
  have hbehind : ∀ h' row', s.messages.get? h' = some row' → isPending row' = true →
      (h', row') ∉ rows → (h' = h ∧ row' = row) ∨ h' ≠ h ∧ (h', row') ∉ (h, row) :: rows := by
    intro h' row' hstart _ hrows
    by_cases hh : h' = h
    · subst hh
      exact .inl ⟨rfl, Option.some.inj (hstart.symm.trans hr.1)⟩
    · exact .inr ⟨hh, by simp [hh, hrows]⟩
  unfold visit at hvisit
  cases hfound : found mime maildirPath disk row with
  | none =>
      simp only [hfound, Except.ok.injEq] at hvisit
      subst hvisit
      refine ⟨hp.committed, hp.view, fun r' hr' => hp.ahead r' (List.mem_cons_of_mem _ hr'), ?_⟩
      intro h' row' hstart hwaiting hrows
      cases hbehind h' row' hstart hwaiting hrows with
      | inl h =>
          obtain ⟨rfl, rfl⟩ := h
          exact .inl hfound
      | inr h => exact hp.behind h' row' hstart hwaiting h.2
  | some read =>
      cases read with
      | error e =>
          simp only [hfound, Except.map] at hvisit
          cases hvisit
      | ok atts =>
          simp only [hfound, Except.map, Except.ok.injEq] at hvisit
          subst hvisit
          have hmarked : Marked mime maildirPath disk s (write p.view h atts now) h row atts :=
            marked_write hr.1 hr.2 hfound (hp.ahead (h, row) List.mem_cons_self)
          have hview : Advanced mime maildirPath disk s (write p.view h atts now) := by
            intro h'
            by_cases hh : h' = h
            · subst hh
              exact .inr ⟨row, atts, hmarked⟩
            · exact (hp.view h').imp (same_write atts hh) fun hother => by
                obtain ⟨row', atts', hother⟩ := hother
                exact ⟨row', atts', marked_write_of_ne hh hother⟩
          refine ⟨?_, hview, fun r' hr' => same_write atts (hdistinct r' hr')
            (hp.ahead r' (List.mem_cons_of_mem _ hr')), ?_⟩
          · dsimp only
            split
            · exact hview
            · exact hp.committed
          · intro h' row' hstart hwaiting hrows
            cases hbehind h' row' hstart hwaiting hrows with
            | inl h =>
                obtain ⟨rfl, rfl⟩ := h
                exact .inr ⟨atts, hmarked⟩
            | inr h =>
                obtain ⟨hh, hrows⟩ := h
                refine (hp.behind h' row' hstart hwaiting hrows).imp id fun hother => ?_
                obtain ⟨atts', hother⟩ := hother
                exact ⟨atts', marked_write_of_ne hh hother⟩

/-- A loop that comes to its end has passed every row; one that does not has committed only what
it read. -/
theorem Midway.of_visitAll {rows rest : List (H × MessageRow)} {p : Pass H}
    (hp : Midway mime maildirPath disk s (rows ++ rest) p)
    (hrows : ∀ r ∈ rows, s.messages.get? r.1 = some r.2 ∧ isPending r.2 = true)
    (hnodup : ((rows ++ rest).map Prod.fst).Nodup) :
    Advanced mime maildirPath disk s (visitAll mime maildirPath disk now rows p).1.committed ∧
      ((visitAll mime maildirPath disk now rows p).2 = true →
        Midway mime maildirPath disk s rest (visitAll mime maildirPath disk now rows p).1) := by
  induction rows generalizing p with
  | nil => exact ⟨hp.committed, fun _ => hp⟩
  | cons r rows ih =>
      rw [visitAll]
      cases hvisit : visit mime maildirPath disk now p r with
      | error e => exact ⟨hp.committed, fun h => absurd h (by simp)⟩
      | ok p' =>
          have hp' := hp.of_visit (hrows r List.mem_cons_self) hnodup hvisit
          rw [List.cons_append, List.map_cons, List.nodup_cons] at hnodup
          exact ih hp' (fun r' hr' => hrows r' (List.mem_cons_of_mem _ hr')) hnodup.2

/-! ## From pass to pass -/

theorem mem_pending {r : H × MessageRow} :
    r ∈ pending order s ↔ s.messages.get? r.1 = some r.2 ∧ isPending r.2 = true := by
  rw [pending, Order.mem_list, Multiset.mem_filter, Multiset.mem_coe, ← Table.mem_rows]

omit [DecidableEq H] in
theorem nodup_pending : ((pending order s).map Prod.fst).Nodup := by
  have hrows : (((s.messages.rows : Multiset (H × MessageRow)).map Prod.fst)).Nodup := by
    rw [Multiset.map_coe, Multiset.coe_nodup]
    exact s.messages.nodup
  rw [← Multiset.coe_nodup, ← Multiset.map_coe, pending, order.coe_list]
  exact Multiset.nodup_of_le (Multiset.map_le_map (Multiset.filter_le _ _)) hrows

theorem midway_start : Midway mime maildirPath disk s (pending order s) ⟨s, s, 0⟩ where
  committed h := .inl (same_refl s h)
  view h := .inl (same_refl s h)
  ahead r _ := same_refl s r.1
  behind _ _ hstart hwaiting hnot := absurd (mem_pending.mpr ⟨hstart, hwaiting⟩) hnot

variable (mime maildirPath disk now) in
theorem visitAll_pending {rows rest : List (H × MessageRow)}
    (hrows : rows ++ rest = pending order s) :
    Advanced mime maildirPath disk s
        (visitAll mime maildirPath disk now rows ⟨s, s, 0⟩).1.committed ∧
      ((visitAll mime maildirPath disk now rows ⟨s, s, 0⟩).2 = true →
        Midway mime maildirPath disk s rest
          (visitAll mime maildirPath disk now rows ⟨s, s, 0⟩).1) := by
  have hmem : ∀ r ∈ rows, r ∈ pending order s := fun r hr => hrows ▸ List.mem_append_left rest hr
  exact Midway.of_visitAll (hrows ▸ midway_start) (fun r hr => mem_pending.mp (hmem r hr))
    (hrows ▸ nodup_pending)

theorem advanced_next {e : PassEvent} (h : next mime maildirPath order s e = some t) :
    Advanced mime maildirPath e.disk s t := by
  cases e with
  | complete disk now =>
      obtain rfl := Option.some.inj h
      obtain ⟨hcommitted, hend⟩ :=
        visitAll_pending mime maildirPath disk now (List.append_nil (pending order s))
      split
      next hdone => exact (hend hdone).view
      next => exact hcommitted
  | cut disk now visited =>
      obtain rfl := Option.some.inj h
      exact (visitAll_pending mime maildirPath disk now
        (List.take_append_drop visited (pending order s))).1

theorem not_pending_mark (atts : List Attachment) (now : Time) (row : MessageRow) :
    isPending (mark atts now row) = false := by
  simp [isPending, mark]

/-- What still waits was not touched. -/
theorem Advanced.same_of_pending (h : Advanced mime maildirPath disk s t)
    (hrow : t.messages.get? k = some row) (hwaiting : isPending row = true) : Same s t k := by
  refine (h k).resolve_right fun hmarked => ?_
  obtain ⟨row', atts, hmarked⟩ := hmarked
  obtain ⟨now, hmessage⟩ := hmarked.message
  obtain rfl := Option.some.inj (hmessage.symm.trans hrow)
  rw [not_pending_mark] at hwaiting
  cases hwaiting

/-- What is marked is not visited again. -/
theorem Advanced.trans (h : Advanced mime maildirPath disk s t)
    (h' : Advanced mime maildirPath disk t u) : Advanced mime maildirPath disk s u := by
  intro k
  cases h' k with
  | inl hsame' =>
      refine (h k).imp (fun hsame => ⟨hsame'.message.trans hsame.message,
        hsame'.attachments.trans hsame.attachments⟩) fun hmarked => ?_
      obtain ⟨row, atts, hmarked⟩ := hmarked
      exact ⟨row, atts, hmarked.start, hmarked.waiting, hmarked.read,
        hsame'.message ▸ hmarked.message, hsame'.attachments.trans hmarked.attachments⟩
  | inr hmarked' =>
      obtain ⟨row, atts, hmarked'⟩ := hmarked'
      have hsame := h.same_of_pending hmarked'.start hmarked'.waiting
      exact .inr ⟨row, atts, hsame.message ▸ hmarked'.start, hmarked'.waiting, hmarked'.read,
        hmarked'.message, hmarked'.attachments⟩

/-- Where the parser raises nothing, a pass comes to its end. -/
theorem visitAll_complete {rows : List (H × MessageRow)} {p : Pass H}
    (h : ∀ r ∈ rows, found mime maildirPath disk r.2 ≠ some (.error ())) :
    (visitAll mime maildirPath disk now rows p).2 = true := by
  induction rows generalizing p with
  | nil => rfl
  | cons r rows ih =>
      have hrest : ∀ r ∈ rows, found mime maildirPath disk r.2 ≠ some (.error ()) :=
        fun r hr => h r (List.mem_cons_of_mem _ hr)
      rw [visitAll]
      cases hfound : found mime maildirPath disk r.2 with
      | none =>
          simp only [visit, hfound]
          exact ih hrest
      | some read =>
          cases read with
          | error e => exact absurd hfound (h r List.mem_cons_self)
          | ok atts =>
              simp only [visit, hfound, Except.map]
              exact ih hrest

theorem advanced_of_reaches
    (h : Reaches (next mime maildirPath order) (fun _ e => e.disk = disk) s t) :
    Advanced mime maildirPath disk s t :=
  h.invariant (fun k => .inl (same_refl s k)) fun _ _ _ hadvanced hdisk hnext =>
    hadvanced.trans (hdisk ▸ advanced_next hnext)

/-- The attachments of a message are those in the content of its file. -/
structure Filled (mime : Mime) (content : Option (List UInt8)) (row : MessageRow)
    (u : MailIndex H) (h : H) (atts : List Attachment) : Prop where
  parsed : ∃ read, parseAttachments mime content = .ok read ∧ read.getD [] = atts
  message : ∃ now, u.messages.get? h = some (mark atts now row)
  attachments : rowsOf u h = atts

theorem Marked.filled {path : String} {atts : List Attachment}
    (h : Marked mime maildirPath disk s u k row atts)
    (hpath : locate maildirPath disk row = some path) :
    Filled mime (disk.file path) row u k atts where
  parsed := by
    have hread := h.read
    rw [found, hpath, Option.map_some] at hread
    cases hparse : parseAttachments mime (disk.file path) with
    | error e =>
        rw [hparse] at hread
        cases hread
    | ok read =>
        rw [hparse] at hread
        exact ⟨read, rfl, Except.ok.inj (Option.some.inj hread)⟩
  message := h.message
  attachments := h.attachments

/-- However often the backfill was cut off, one whole run over a maildir that rests leaves every
message that waited with the attachments of its file, and everything else as it was before the
first. -/
theorem backfill_converges {now : Time}
    (hparses : ∀ h row, s.messages.get? h = some row → isPending row = true →
      ∀ path, locate maildirPath disk row = some path →
        parseAttachments mime (disk.file path) ≠ .error ())
    (hruns : Reaches (next mime maildirPath order) (fun _ e => e.disk = disk) s t)
    (hlast : next mime maildirPath order t (.complete disk now) = some u)
    (hstart : s.messages.get? k = some row) :
    (isPending row = true → ∀ path, locate maildirPath disk row = some path →
      ∃ atts, Filled mime (disk.file path) row u k atts) ∧
    (isPending row = false ∨ locate maildirPath disk row = none → Same s u k) := by
  have hbefore : Advanced mime maildirPath disk s t := advanced_of_reaches hruns
  have hpass : Advanced mime maildirPath disk t u := advanced_next hlast
  have hquiet : ∀ r ∈ pending order t, found mime maildirPath disk r.2 ≠ some (.error ()) := by
    intro r hr hraise
    obtain ⟨hrow, hwaiting⟩ := mem_pending.mp hr
    have hsame := hbefore.same_of_pending hrow hwaiting
    obtain ⟨path, hpath, hread⟩ := Option.map_eq_some_iff.mp hraise
    refine hparses r.1 r.2 (hsame.message ▸ hrow) hwaiting path hpath ?_
    cases hparse : parseAttachments mime (disk.file path) with
    | error e => rfl
    | ok read =>
        rw [hparse] at hread
        cases hread
  have hdone : (visitAll mime maildirPath disk now (pending order t) ⟨t, t, 0⟩).2 = true :=
    visitAll_complete hquiet
  have hend : Midway mime maildirPath disk t [] _ :=
    (visitAll_pending mime maildirPath disk now (List.append_nil (pending order t))).2 hdone
  obtain rfl : (visitAll mime maildirPath disk now (pending order t) ⟨t, t, 0⟩).1.view = u := by
    simpa [next, hdone] using hlast
  constructor
  · intro hwaiting path hpath
    cases hbefore.trans hpass k with
    | inr hmarked =>
        obtain ⟨row', atts, hmarked⟩ := hmarked
        obtain rfl := Option.some.inj (hstart.symm.trans hmarked.start)
        exact ⟨atts, hmarked.filled hpath⟩
    | inl hsame =>
        -- The last pass would have left it out, which only a missing file makes it do.
        have hrow := hsame.message.trans hstart
        have hbehind := hend.behind k row
          ((hpass.same_of_pending hrow hwaiting).message ▸ hrow) hwaiting (List.not_mem_nil)
        cases hbehind with
        | inl hnone => simp [found, hpath] at hnone
        | inr hmarked =>
            obtain ⟨atts, hmarked⟩ := hmarked
            exact ⟨atts, Marked.filled hmarked hpath⟩
  · intro hleft
    refine (hbefore.trans hpass k).resolve_right fun hmarked => ?_
    obtain ⟨row', atts, hmarked⟩ := hmarked
    obtain rfl := Option.some.inj (hstart.symm.trans hmarked.start)
    cases hleft with
    | inl hidle =>
        rw [hmarked.waiting] at hidle
        cases hidle
    | inr hnone =>
        have hread := hmarked.read
        rw [found, hnone] at hread
        cases hread

/-! ## A pass that was cut off -/

def sampleIndex : MailIndex String :=
  { messages := ⟨[("h1", sampleMessage)], by simp⟩, attachments := [] }

def sampleDisk : Disk where
  pathExists path := path == "/mail/a1/INBOX/cur/1:2,"
  file _ := some [65, 66]

noncomputable def sampleOrder : Unordered (String × MessageRow) :=
  .sorting _ (fun _ _ _ _ _ => trivial) fun _ _ => .inl trivial

/-- The first pass ends before its commit. -/
theorem backfill_converges_cut : ∃ t u,
    next sampleMime "/mail/a1" sampleOrder sampleIndex (.cut sampleDisk 5 1) = some t ∧
      next sampleMime "/mail/a1" sampleOrder t (.complete sampleDisk 9) = some u ∧
        rowsOf u "h1" = [sampleAttachment] := by
  have hpath : locate "/mail/a1" sampleDisk sampleMessage = some "/mail/a1/INBOX/cur/1:2," := by
    decide +kernel
  refine ⟨_, _, rfl, rfl, ?_⟩
  have hruns : Reaches (next sampleMime "/mail/a1" sampleOrder) (fun _ e => e.disk = sampleDisk)
      sampleIndex _ := .step (e := .cut sampleDisk 5 1) .refl rfl rfl
  have hrow : sampleIndex.messages.get? "h1" = some sampleMessage := rfl
  have hparses : ∀ path, parseAttachments sampleMime (sampleDisk.file path) =
      .ok (some [sampleAttachment]) := fun _ => rfl
  obtain ⟨atts, hfilled⟩ := (backfill_converges
    (fun _ _ _ _ path _ h => by rw [hparses path] at h; cases h) hruns rfl hrow).1 rfl _ hpath
  obtain ⟨read, hread, hatts⟩ := hfilled.parsed
  obtain rfl := Except.ok.inj hread
  rw [hfilled.attachments, ← hatts]
  rfl

end MailFallback.AttachmentBackfill
