import MailFallback.Access.Agreement
import MailFallback.Search.Dovecot
import Mathlib.Algebra.Order.BigOperators.Group.Finset
import Mathlib.Data.List.Infix
import Mathlib.Data.Nat.Basic

/-! # Message-Ids that are resolved to UIDs

A Message-Id leads to a folder in the index and from there to the first message that a search
finds. The search compares parts of headers, without regard to case, and so may find another
message. -/

namespace MailFallback.Search

open Storage Effects Query PyString Index Access DovecotTask

/-! ## Dovecot -/

/-- The Message-Ids of a mailbox by UID. No search finds a message without one. -/
abbrev Mailbox := Table String String

/-- The letters as the search compares them. -/
def folded (text : String) : List Char := text.toList.map Char.toLower

/-- `SEARCH HEADER Message-Id`, in the order of the UIDs. -/
def Mailbox.search (mailbox : Mailbox) (text : String) : List String :=
  (mailbox.filter fun _ header => decide (folded text <:+: folded header)).keys

/-- The text of a quoted string without quotes and backslashes. -/
def unquoted (text : String) : String := String.ofList (text.toList.drop 1).dropLast

structure Dovecot where
  reachable : Bool := true
  /-- By the names that the temporary user sees. -/
  mailboxes : String → Option Mailbox

/-- The mailboxes, if there is a connection. -/
def Dovecot.seen (dovecot : Dovecot) (name : String) : Option Mailbox :=
  if dovecot.reachable = true then dovecot.mailboxes name else none

def Mailbox.answer (mailbox : Mailbox) (criteria : List String) : Option (List String) :=
  if criteria.take 2 = ["HEADER", "Message-Id"] then
    criteria[2]?.map fun quoted => mailbox.search (unquoted quoted)
  else none

/-- The state is the mailbox that is selected. Every command may end in an exception; a
connection does where there is none to be had. -/
def Dovecot.serve (dovecot : Dovecot) :
    Machine DovecotOp DovecotOp.Reply Unit (Option Mailbox)
  | .connect _, _, .ok _ => if dovecot.reachable = true then some none else none
  | .connect _, s, .error _ => if dovecot.reachable = true then none else some s
  | .select target, _, .ok there =>
      if (dovecot.seen (unquoted target)).isSome = (show Bool from there) then
        some (dovecot.seen (unquoted target))
      else none
  | .uidSearch criteria none, s, .ok uids =>
      if s.bind (fun mailbox => Mailbox.answer mailbox criteria) = (show Option (List String) from uids) then
        some s
      else none
  | _, s, _ => some s

/-- The mailbox that is selected for a folder. -/
def mailboxKey (pre folder : String) : String := pre ++ sanitizeImapString folder

/-- The first message that is found for a Message-Id in a folder. -/
def firstHit (dovecot : Dovecot) (pre : String) (p : String × String) : Option String :=
  (dovecot.seen (mailboxKey pre p.1)).bind fun mailbox =>
    (mailbox.search (sanitizeImapString p.2)).head?

/-! ## What the lookup returns -/

/-- The folders with their Message-Ids, one by one. -/
def pairs (folders : List (String × List String)) : List (String × String) :=
  folders.flatMap fun folder => folder.2.map fun msgid => (folder.1, msgid)

/-- What is found for these folders and Message-Ids. -/
structure Taken (dovecot : Dovecot) (pre : String) (done : List (String × String)) (r : Resolved) :
    Prop where
  uids : ∀ key, (r.resolved.get? key).getD [] =
    done.filterMap fun p => if mailboxKey pre p.1 = key then firstHit dovecot pre p else none
  found : r.found = (done.filter fun p => (firstHit dovecot pre p).isSome).map Prod.snd

variable {dovecot : Dovecot} {pre : String} {r : Resolved} {s : Option Mailbox}
  {done : List (String × String)}

theorem taken_nil : Taken dovecot pre [] {} := ⟨fun _ => rfl, rfl⟩

theorem Taken.miss (h : Taken dovecot pre done r) {p : String × String}
    (hp : firstHit dovecot pre p = none) : Taken dovecot pre (done ++ [p]) r := by
  refine ⟨fun key => ?_, ?_⟩
  · rw [List.filterMap_append, h.uids]
    simp [hp]
  · rw [List.filter_append, h.found]
    simp [hp]

theorem Taken.hit (h : Taken dovecot pre done r) {p : String × String} {uid : String}
    (hp : firstHit dovecot pre p = some uid) :
    Taken dovecot pre (done ++ [p]) ⟨r.resolved.append (mailboxKey pre p.1) uid, r.found ++ [p.2]⟩ := by
  refine ⟨fun key => ?_, ?_⟩
  · rw [Table.get?_append, h.uids, List.filterMap_append]
    congr 1
    by_cases hkey : mailboxKey pre p.1 = key
    · simp [hkey, hp]
    · simp [hkey, Ne.symm hkey]
  · rw [List.filter_append, h.found]
    simp [hp]

/-- Where the mailbox cannot be selected. -/
theorem Taken.closed (h : Taken dovecot pre done r) {folder : String} (msgids : List String)
    (hclosed : dovecot.seen (mailboxKey pre folder) = none) :
    Taken dovecot pre (done ++ msgids.map fun msgid => (folder, msgid)) r := by
  induction msgids generalizing done with
  | nil => simpa using h
  | cons msgid msgids ih =>
      have hmiss : firstHit dovecot pre (folder, msgid) = none := by
        rw [firstHit, hclosed]
        rfl
      have hrest := ih (h.miss hmiss)
      rwa [List.append_assoc] at hrest

theorem unquoted_quoted (text : String) : unquoted ("\"" ++ text ++ "\"") = text := by
  rw [unquoted, String.toList_append, String.toList_append]
  simp

theorem resolveMessage_safe {folder msgid : String} {mailbox : Mailbox}
    (h : Taken dovecot pre done r) (hs : dovecot.seen (mailboxKey pre folder) = some mailbox) :
    Safe dovecot.serve .free
      (fun r' t => t = some mailbox ∧ Taken dovecot pre (done ++ [(folder, msgid)]) r')
      (fun _ _ => True) (resolveMessage (mailboxKey pre folder) r msgid) (some mailbox) := by
  have hhit : firstHit dovecot pre (folder, msgid) =
      (mailbox.search (sanitizeImapString msgid)).head? := by
    rw [firstHit, hs]
    rfl
  unfold resolveMessage
  apply Safe.bind
  refine Safe.op trivial trivial ?_ fun _ _ _ => ⟨trivial, trivial⟩
  intro (uids : Option (List String)) t ht
  obtain ⟨huids, hstate⟩ := Option.ite_none_right_eq_some.mp ht
  obtain rfl := Option.some.inj hstate
  rw [Option.bind_some, Mailbox.answer, if_pos (by rfl)] at huids
  change some (mailbox.search (unquoted _)) = uids at huids
  rw [unquoted_quoted] at huids
  rw [← huids]
  refine ⟨trivial, ?_⟩
  cases hsearch : mailbox.search (sanitizeImapString msgid) with
  | nil => exact ⟨trivial, rfl, h.miss (by rw [hhit, hsearch]; rfl)⟩
  | cons uid uids => exact ⟨trivial, rfl, h.hit (by rw [hhit, hsearch]; rfl)⟩

theorem resolveFolder_safe {folder : String × List String} (h : Taken dovecot pre done r) :
    Safe dovecot.serve .free
      (fun r' _ => Taken dovecot pre (done ++ folder.2.map fun msgid => (folder.1, msgid)) r')
      (fun _ _ => True) (resolveFolder pre r folder) s := by
  unfold resolveFolder
  apply Safe.bind
  refine Safe.op trivial trivial ?_ fun _ _ _ => ⟨trivial, trivial⟩
  intro (there : Bool) t ht
  obtain ⟨hthere, hstate⟩ := Option.ite_none_right_eq_some.mp ht
  obtain rfl := Option.some.inj hstate
  rw [unquoted_quoted] at hthere ⊢
  refine ⟨trivial, ?_⟩
  change (dovecot.seen (mailboxKey pre folder.1)).isSome = there at hthere
  cases hseen : dovecot.seen (mailboxKey pre folder.1) with
  | none =>
      rw [← hthere, hseen]
      exact ⟨trivial, h.closed folder.2 hseen⟩
  | some mailbox =>
      rw [← hthere, hseen]
      change Safe _ _ _ _ (folder.2.foldlM (resolveMessage (mailboxKey pre folder.1)) r)
        (dovecot.seen (mailboxKey pre folder.1))
      rw [hseen]
      refine (Safe.foldlM (fun msgids r t => t = some mailbox ∧
        Taken dovecot pre (done ++ msgids.map fun msgid => (folder.1, msgid)) r) folder.2
        ⟨rfl, by simpa using h⟩ trivial ?_).post (fun _ _ _ h => h.2) fun _ _ _ h => h
      rintro msgids msgid _ r' t - - ⟨rfl, hr'⟩
      refine (resolveMessage_safe hr' hseen).post ?_ fun _ _ _ h => h
      intro r'' t _ ht
      rw [List.map_append, List.map_singleton, ← List.append_assoc]
      exact ht

theorem taken_unreachable (h : dovecot.reachable = false) : Taken dovecot pre done {} := by
  have hhit : ∀ p, firstHit dovecot pre p = none := by
    intro p
    simp [firstHit, Dovecot.seen, h]
  refine ⟨fun key => ?_, ?_⟩
  · symm
    simp [hhit]
  · simp [hhit]

theorem resolveFolders_safe (folders : List (String × List String)) :
    Safe dovecot.serve .free (fun r _ => Taken dovecot pre (pairs folders) r) (fun _ _ => True)
      (folders.foldlM (resolveFolder pre) {}) s := by
  refine Safe.foldlM (fun folders r _ => Taken dovecot pre (pairs folders) r) folders taken_nil
    trivial ?_
  intro folders folder _ r t _ _ hr
  refine (resolveFolder_safe hr).post (fun r' _ _ hr' => ?_) fun _ _ _ h => h
  rw [pairs, List.flatMap_append, List.flatMap_singleton]
  exact hr'

/-- What a lookup that returns has found. -/
theorem resolveUids_safe {accountId : Id} {account : Account} {rows : List MessageRow}
    {messageIds : List String} :
    Safe dovecot.serve .free
      (fun r _ => ∃ taken, Taken dovecot (accountNamespacePrefix accountId account)
        (pairs (byFolder rows).rows) taken ∧ r.resolved = taken.resolved ∧
        r.missing = messageIds.filter fun m => m ∉ taken.found)
      (fun _ _ => True) (resolveUidsForAccount accountId account rows messageIds) s := by
  unfold resolveUidsForAccount
  dsimp only
  split
  · rename_i hempty
    refine ⟨trivial, {}, ?_, rfl, rfl⟩
    rw [hempty]
    exact taken_nil
  · apply Safe.bind
    apply Safe.handle
    apply Safe.bind
    refine Safe.op trivial trivial ?_ ?_
    · intro _ t _
      refine ⟨trivial, trivial, ?_⟩
      apply Safe.bind
      apply Safe.ensure
      refine (resolveFolders_safe _).post ?_ fun _ _ _ _ => Safe.top
      intro taken t _ htaken
      exact Safe.top.post (fun _ _ _ _ => ⟨trivial, taken, htaken, rfl, rfl⟩) fun _ _ _ h => h
    · intro e t ht
      have hunreachable : dovecot.reachable = false := by
        have hbranch := (Option.ite_none_left_eq_some.mp ht).1
        simpa using hbranch
      exact ⟨trivial, trivial, trivial, {}, taken_unreachable hunreachable, rfl, rfl⟩

/-! ## The index -/

/-- The rows of the account are those of the live messages, in the folders they lie in; a row is
kept under the account and the hash of its Message-Id. -/
structure IndexAgrees {H : Type} (hash : String → H) (mailboxes : String → Option Mailbox)
    (pre : String) (accountId : Id) (messages : Multiset (MessageKey H × MessageRow)) : Prop where
  nodup : (messages.map Prod.fst).Nodup
  hashed : ∀ r ∈ messages, r.1.2 = hash r.2.messageId
  live : ∀ r ∈ messages, r.1.1 = accountId → r.2.deletedAt = none →
    ∃ mailbox uid, mailboxes (pre ++ r.2.folderPath) = some mailbox ∧
      mailbox.get? uid = some r.2.messageId
  indexed : ∀ folder mailbox uid msgid, mailboxes (pre ++ folder) = some mailbox →
    mailbox.get? uid = some msgid →
    ∃ r ∈ messages, r.1.1 = accountId ∧ r.2.deletedAt = none ∧ r.2.folderPath = folder ∧
      r.2.messageId = msgid

theorem pairs_cons (folder : String × List String) (folders : List (String × List String)) :
    pairs (folder :: folders) = (folder.2.map fun msgid => (folder.1, msgid)) ++ pairs folders :=
  List.flatMap_cons

/-- One more Message-Id in a folder that is there. -/
theorem perm_pairs_extend {folders : List (String × List String)} {folder msgid : String}
    {msgids : List String} (hnodup : (folders.map Prod.fst).Nodup) (h : (folder, msgids) ∈ folders) :
    (pairs (folders.map fun r => (r.1, if r.1 = folder then msgids ++ [msgid] else r.2))).Perm
      ((folder, msgid) :: pairs folders) := by
  induction folders with
  | nil => cases h
  | cons r folders ih =>
      rw [List.map_cons, List.nodup_cons] at hnodup
      rw [List.map_cons, pairs_cons, pairs_cons]
      obtain rfl | h := List.mem_cons.mp h
      · have hsame : folders.map (fun r => (r.1, if r.1 = folder then msgids ++ [msgid] else r.2)) =
            folders := by
          conv_rhs => rw [← List.map_id folders]
          refine List.map_congr_left fun other hother => ?_
          have hne : other.1 ≠ folder := fun heq =>
            hnodup.1 (List.mem_map.mpr ⟨other, hother, heq⟩)
          rw [if_neg hne]
          rfl
        rw [hsame]
        dsimp only
        rw [if_pos rfl, List.map_append, List.append_assoc]
        exact List.perm_middle
      · have hne : r.1 ≠ folder := fun heq => hnodup.1 (List.mem_map.mpr ⟨_, h, heq.symm⟩)
        dsimp only
        rw [if_neg hne]
        exact ((ih hnodup.2 h).append_left _).trans List.perm_middle

theorem perm_pairs_append (t : Table String (List String)) (folder msgid : String) :
    (pairs (t.append folder msgid).rows).Perm ((folder, msgid) :: pairs t.rows) := by
  unfold Table.append Table.set
  split
  · rename_i msgids hmsgids
    rw [hmsgids]
    exact perm_pairs_extend t.nodup (Table.mem_rows.mpr hmsgids)
  · rename_i hnone
    change (pairs (t.rows ++ [(folder, (t.get? folder).getD [] ++ [msgid])])).Perm _
    rw [hnone, pairs, List.flatMap_append]
    exact List.perm_append_comm

theorem pairs_byFolder (rows : List MessageRow) :
    (pairs (byFolder rows).rows).Perm (rows.map fun r => (r.folderPath, r.messageId)) := by
  have hrun : ∀ t : Table String (List String),
      (pairs (rows.foldl (fun folders r => folders.append r.folderPath r.messageId) t).rows).Perm
        ((rows.map fun r => (r.folderPath, r.messageId)) ++ pairs t.rows) := by
    induction rows with
    | nil => exact fun t => .refl _
    | cons row rows ih =>
        intro t
        rw [List.foldl_cons, List.map_cons, List.cons_append]
        exact (ih _).trans (((perm_pairs_append t _ _).append_left _).trans List.perm_middle)
  have hall := hrun .empty
  rwa [show pairs (Table.empty : Table String (List String)).rows = [] from rfl,
    List.append_nil] at hall

/-! ## A map onto a finite set -/

/-- A map under whose images every member of a finite set is, is one to one on it; where it makes
no member lighter, it makes none heavier. -/
theorem map_onto {α : Type} [DecidableEq α] {S : Finset α} {f : α → α} {weight : α → ℕ}
    (honto : S ⊆ S.image f) (hweight : ∀ a ∈ S, weight a ≤ weight (f a)) :
    Set.InjOn f S ∧ ∀ a ∈ S, f a ∈ S ∧ weight a = weight (f a) := by
  have himage : S = S.image f := Finset.eq_of_subset_of_card_le honto Finset.card_image_le
  have hinj : Set.InjOn f S := Finset.card_image_iff.mp (congrArg Finset.card himage).symm
  have hsum : ∑ a ∈ S, weight a = ∑ a ∈ S, weight (f a) := by
    conv_lhs => rw [himage]
    exact Finset.sum_image hinj
  refine ⟨hinj, fun a ha => ⟨?_, (Finset.sum_eq_sum_iff_of_le hweight).mp hsum a ha⟩⟩
  rw [himage]
  exact Finset.mem_image_of_mem f ha

/-! ## What a search compares -/

/-- The characters that are left in a quoted string. -/
def isQuotable (c : Char) : Bool := !(c == '"' || c == '\\' || decide (c.toNat ≤ 0x1f))

theorem isQuotable_of_toNat {c : Char} {n : ℕ} (h : c.toNat = n) (hc : 31 < n) (hq : n ≠ 34)
    (hb : n ≠ 92) : isQuotable c = true := by
  subst h
  have hquote : c ≠ '"' := by
    rintro rfl
    exact hq rfl
  have hbackslash : c ≠ '\\' := by
    rintro rfl
    exact hb rfl
  have hprintable : ¬c.toNat ≤ 0x1f := by omega
  simp [isQuotable, hquote, hbackslash, hprintable]

theorem isQuotable_toLower (c : Char) : isQuotable c.toLower = isQuotable c := by
  delta Char.toLower
  split
  · rename_i h
    have hlow : 65 ≤ c.toNat := UInt32.le_iff_toNat_le.mp h.1
    have hhigh : c.toNat ≤ 90 := UInt32.le_iff_toNat_le.mp h.2
    have hval : (c.val + 32).toNat = c.toNat + 32 := by
      rw [UInt32.toNat_add]
      change (c.toNat + 32) % 2 ^ 32 = _
      omega
    rw [isQuotable_of_toNat (c := c) rfl (by omega) (by omega) (by omega)]
    refine isQuotable_of_toNat (?_ : _ = c.toNat + 32) (by omega) (by omega) (by omega)
    exact hval
  · rfl

theorem sanitizeImapString_idem (text : String) :
    sanitizeImapString (sanitizeImapString text) = sanitizeImapString text := by
  simp [sanitizeImapString]

theorem folded_sanitize (text : String) :
    folded (sanitizeImapString text) = (folded text).filter isQuotable := by
  rw [folded, folded, sanitizeImapString, String.toList_ofList, List.filter_map]
  congr 1
  exact List.filter_congr fun c _ => (isQuotable_toLower c).symm

/-- What is found in a header is found in what a search for the header looks for. -/
theorem folded_inside {text header : String}
    (h : folded (sanitizeImapString text) <:+: folded header) :
    folded (sanitizeImapString text) <:+: folded (sanitizeImapString header) := by
  have hfiltered := h.filter isQuotable
  rwa [← folded_sanitize, ← folded_sanitize, sanitizeImapString_idem] at hfiltered

/-! ## Which lookups are right -/

/-- The UIDs under a folder are those of messages with requested Message-Ids, each once, and a
Message-Id is missing or a UID of a message with exactly it is there. -/
structure RightlyResolved (dovecot : Dovecot) (messageIds : List String) (r : ResolvedUids) :
    Prop where
  carries : ∀ key uids uid, r.resolved.get? key = some uids → uid ∈ uids →
    ∃ mailbox msgid, dovecot.mailboxes key = some mailbox ∧ mailbox.get? uid = some msgid ∧
      msgid ∈ messageIds
  accounted : ∀ msgid ∈ messageIds, msgid ∈ r.missing ∨ ∃ key uids uid mailbox,
    r.resolved.get? key = some uids ∧ uid ∈ uids ∧ dovecot.mailboxes key = some mailbox ∧
      mailbox.get? uid = some msgid
  once : ∀ key uids, r.resolved.get? key = some uids → uids.Nodup

/-- Where the search for a Message-Id finds anything, what it finds first carries exactly it. -/
def FirstHitsExact (dovecot : Dovecot) (pre : String) (rows : List MessageRow) : Prop :=
  ∀ row ∈ rows, ∀ uid, firstHit dovecot pre (row.folderPath, row.messageId) = some uid →
    ((dovecot.mailboxes (mailboxKey pre row.folderPath)).bind fun mailbox => mailbox.get? uid) =
      some row.messageId

theorem firstHit_spec {p : String × String} {uid : String} (h : firstHit dovecot pre p = some uid) :
    ∃ mailbox header, dovecot.mailboxes (mailboxKey pre p.1) = some mailbox ∧
      mailbox.get? uid = some header ∧ folded (sanitizeImapString p.2) <:+: folded header := by
  obtain ⟨mailbox, hmailbox, hhead⟩ := Option.bind_eq_some_iff.mp h
  obtain ⟨header, hheader⟩ := Table.mem_keys.mp (List.mem_of_mem_head? hhead)
  rw [Table.get?_filter, Option.filter_eq_some_iff, decide_eq_true_eq] at hheader
  exact ⟨mailbox, header, (Option.ite_none_right_eq_some.mp hmailbox).2, hheader⟩

/-- Searches for texts that differ in case only find the same. -/
theorem search_congr {mailbox : Mailbox} {text text' : String} (h : folded text = folded text') :
    mailbox.search text = mailbox.search text' := by
  rw [Mailbox.search, Mailbox.search, h]

theorem firstHit_congr {p p' : String × String} (hkey : mailboxKey pre p.1 = mailboxKey pre p'.1)
    (h : folded (sanitizeImapString p.2) = folded (sanitizeImapString p'.2)) :
    firstHit dovecot pre p = firstHit dovecot pre p' := by
  unfold firstHit
  rw [hkey]
  cases dovecot.seen (mailboxKey pre p'.1) with
  | none => rw [Option.bind_none, Option.bind_none]
  | some mailbox => rw [Option.bind_some, Option.bind_some, search_congr h]

theorem Taken.mem_uids (h : Taken dovecot pre done r) {key uid : String} :
    (∃ uids, r.resolved.get? key = some uids ∧ uid ∈ uids) ↔
      ∃ p ∈ done, mailboxKey pre p.1 = key ∧ firstHit dovecot pre p = some uid := by
  have huids := h.uids key
  constructor
  · rintro ⟨uids, hget, hmem⟩
    rw [hget, Option.getD_some] at huids
    rw [huids, List.mem_filterMap] at hmem
    obtain ⟨p, hp, hhit⟩ := hmem
    obtain ⟨hkey, hhit⟩ := Option.ite_none_right_eq_some.mp hhit
    exact ⟨p, hp, hkey, hhit⟩
  · rintro ⟨p, hp, hkey, hhit⟩
    have hmem : uid ∈ (r.resolved.get? key).getD [] := by
      rw [huids, List.mem_filterMap]
      exact ⟨p, hp, by rw [if_pos hkey, hhit]⟩
    cases hget : r.resolved.get? key with
    | none =>
        rw [hget] at hmem
        cases hmem
    | some uids =>
        rw [hget] at hmem
        exact ⟨uids, rfl, hmem⟩

theorem Taken.mem_found (h : Taken dovecot pre done r) {msgid : String} :
    msgid ∈ r.found ↔ ∃ p ∈ done, p.2 = msgid ∧ ∃ uid, firstHit dovecot pre p = some uid := by
  rw [h.found, List.mem_map]
  simp only [List.mem_filter, Option.isSome_iff_exists]
  constructor
  · rintro ⟨p, ⟨hp, huid⟩, rfl⟩
    exact ⟨p, hp, rfl, huid⟩
  · rintro ⟨p, hp, rfl, huid⟩
    exact ⟨p, ⟨hp, huid⟩, rfl⟩

section Lookup

variable {H : Type} {hash : String → H} {db : SearchDb H} {accountId : Id}
  {unordered : Unordered (MessageKey H × MessageRow)} {messageIds : List String}
  {mailboxes : String → Option Mailbox}

theorem mem_requestedRows {row : MessageRow} :
    row ∈ requestedRows unordered db accountId messageIds ↔
      ∃ key, (key, row) ∈ db.messages ∧ key.1 = accountId ∧ row.messageId ∈ messageIds ∧
        row.deletedAt = none := by
  simp [requestedRows]

/-- The index has one row for a Message-Id. -/
theorem nodup_requested (h : IndexAgrees hash mailboxes pre accountId db.messages) :
    ((requestedRows unordered db accountId messageIds).map MessageRow.messageId).Nodup := by
  rw [requestedRows, List.map_map]
  refine List.Nodup.map_on ?_ ?_
  · intro r hr r' hr' heq
    rw [Order.mem_list, Multiset.mem_filter] at hr hr'
    refine Multiset.inj_on_of_nodup_map h.nodup r hr.1 r' hr'.1 (Prod.ext ?_ ?_)
    · rw [hr.2.1, hr'.2.1]
    · rw [h.hashed r hr.1, h.hashed r' hr'.1]
      exact congrArg hash heq
  · rw [Order.nodup_list]
    exact (Multiset.Nodup.of_map _ h.nodup).filter _

theorem mem_pairs_byFolder {rows : List MessageRow} {p : String × String} :
    p ∈ pairs (byFolder rows).rows ↔ ∃ row ∈ rows, (row.folderPath, row.messageId) = p := by
  rw [(pairs_byFolder rows).mem_iff, List.mem_map]

variable {rows : List MessageRow} {r : ResolvedUids} {taken : Resolved}

theorem rightlyResolved_of_exact (hexact : FirstHitsExact dovecot pre rows)
    (hrequested : ∀ row ∈ rows, row.messageId ∈ messageIds)
    (hnodup : (rows.map MessageRow.messageId).Nodup)
    (htaken : Taken dovecot pre (pairs (byFolder rows).rows) taken)
    (hresolved : r.resolved = taken.resolved)
    (hmissing : r.missing = messageIds.filter fun m => m ∉ taken.found) :
    RightlyResolved dovecot messageIds r := by
  have hhit : ∀ p ∈ pairs (byFolder rows).rows, ∀ uid, firstHit dovecot pre p = some uid →
      p.2 ∈ messageIds ∧ ∃ mailbox, dovecot.mailboxes (mailboxKey pre p.1) = some mailbox ∧
        mailbox.get? uid = some p.2 := by
    intro p hp uid huid
    obtain ⟨row, hrow, rfl⟩ := mem_pairs_byFolder.mp hp
    exact ⟨hrequested row hrow, Option.bind_eq_some_iff.mp (hexact row hrow uid huid)⟩
  refine ⟨?_, ?_, ?_⟩
  · intro key uids uid hget hmem
    rw [hresolved] at hget
    obtain ⟨p, hp, rfl, huid⟩ := htaken.mem_uids.mp ⟨uids, hget, hmem⟩
    obtain ⟨hid, mailbox, hmailbox, hheader⟩ := hhit p hp uid huid
    exact ⟨mailbox, p.2, hmailbox, hheader, hid⟩
  · intro msgid hmsgid
    by_cases hfound : msgid ∈ taken.found
    · obtain ⟨p, hp, rfl, uid, huid⟩ := htaken.mem_found.mp hfound
      obtain ⟨uids, hget, hmem⟩ := htaken.mem_uids.mpr ⟨p, hp, rfl, huid⟩
      obtain ⟨-, mailbox, hmailbox, hheader⟩ := hhit p hp uid huid
      exact .inr ⟨_, uids, uid, mailbox, hresolved ▸ hget, hmem, hmailbox, hheader⟩
    · rw [hmissing]
      exact .inl (List.mem_filter.mpr ⟨hmsgid, decide_eq_true hfound⟩)
  · intro key uids hget
    have huids := htaken.uids key
    rw [← hresolved, hget, Option.getD_some] at huids
    rw [huids, List.Nodup, List.pairwise_filterMap]
    have hpairs : (pairs (byFolder rows).rows).Pairwise fun p p' => p.2 ≠ p'.2 := by
      rw [← List.pairwise_map, ← List.Nodup, ((pairs_byFolder rows).map Prod.snd).nodup_iff,
        List.map_map]
      exact hnodup
    refine hpairs.imp_of_mem ?_
    rintro p p' hp hp' hne uid huid _ huid' rfl
    obtain ⟨hkey, huid⟩ := Option.ite_none_right_eq_some.mp huid
    obtain ⟨hkey', huid'⟩ := Option.ite_none_right_eq_some.mp huid'
    obtain ⟨-, mailbox, hmailbox, hheader⟩ := hhit p hp uid huid
    obtain ⟨-, mailbox', hmailbox', hheader'⟩ := hhit p' hp' uid huid'
    rw [hkey] at hmailbox
    rw [hkey', hmailbox] at hmailbox'
    obtain rfl := Option.some.inj hmailbox'
    exact hne (Option.some.inj (hheader.symm.trans hheader'))

/-- The Message-Id of the message that is found first for a Message-Id of the rows. -/
def headerFound (dovecot : Dovecot) (pre : String) (rows : List MessageRow) (msgid : String) :
    String :=
  ((rows.find? fun row => row.messageId = msgid).bind fun row =>
    (firstHit dovecot pre (row.folderPath, row.messageId)).bind fun uid =>
      (dovecot.mailboxes (mailboxKey pre row.folderPath)).bind fun mailbox =>
        mailbox.get? uid).getD msgid

theorem headerFound_eq (hnodup : (rows.map MessageRow.messageId).Nodup) {row : MessageRow}
    (hrow : row ∈ rows) {uid header : String} {mailbox : Mailbox}
    (huid : firstHit dovecot pre (row.folderPath, row.messageId) = some uid)
    (hmailbox : dovecot.mailboxes (mailboxKey pre row.folderPath) = some mailbox)
    (hheader : mailbox.get? uid = some header) :
    headerFound dovecot pre rows row.messageId = header := by
  have hfind : rows.find? (fun other => other.messageId = row.messageId) = some row := by
    cases hother : rows.find? fun other => other.messageId = row.messageId with
    | none => simpa using List.find?_eq_none.mp hother row hrow
    | some other =>
        have hsame : other.messageId = row.messageId := by simpa using List.find?_some hother
        rw [List.inj_on_of_nodup_map hnodup (List.mem_of_find?_eq_some hother) hrow hsame]
  rw [headerFound, hfind, Option.bind_some, huid, Option.bind_some, hmailbox, Option.bind_some,
    hheader, Option.getD_some]

theorem exact_of_rightlyResolved
    (hagrees : IndexAgrees hash dovecot.mailboxes pre accountId db.messages)
    (hrows : rows = requestedRows unordered db accountId messageIds)
    (htaken : Taken dovecot pre (pairs (byFolder rows).rows) taken)
    (hresolved : r.resolved = taken.resolved)
    (hmissing : r.missing = messageIds.filter fun m => m ∉ taken.found)
    (hright : RightlyResolved dovecot messageIds r) : FirstHitsExact dovecot pre rows := by
  have hnodup : (rows.map MessageRow.messageId).Nodup := hrows ▸ nodup_requested hagrees
  have hfound : ∀ {msgid}, msgid ∈ taken.found ↔ ∃ row ∈ rows, row.messageId = msgid ∧
      ∃ uid, firstHit dovecot pre (row.folderPath, row.messageId) = some uid := by
    intro msgid
    rw [htaken.mem_found]
    constructor
    · rintro ⟨p, hp, rfl, hhit⟩
      obtain ⟨row, hrow, rfl⟩ := mem_pairs_byFolder.mp hp
      exact ⟨row, hrow, rfl, hhit⟩
    · rintro ⟨row, hrow, rfl, hhit⟩
      exact ⟨_, mem_pairs_byFolder.mpr ⟨row, hrow, rfl⟩, rfl, hhit⟩
  have honto : taken.found.toFinset ⊆ taken.found.toFinset.image (headerFound dovecot pre rows) := by
    intro msgid hmsgid
    rw [List.mem_toFinset] at hmsgid
    obtain ⟨row, hrow, rfl, -⟩ := hfound.mp hmsgid
    rw [hrows] at hrow
    obtain ⟨-, -, -, hid, -⟩ := mem_requestedRows.mp hrow
    obtain hgone | ⟨key, uids, uid, mailbox, hget, hmem, hmailbox, hheader⟩ := hright.accounted _ hid
    · rw [hmissing, List.mem_filter, decide_eq_true_eq] at hgone
      exact absurd hmsgid hgone.2
    · rw [hresolved] at hget
      obtain ⟨p, hp, rfl, huid⟩ := htaken.mem_uids.mp ⟨uids, hget, hmem⟩
      obtain ⟨other, hother, rfl⟩ := mem_pairs_byFolder.mp hp
      refine Finset.mem_image.mpr ⟨other.messageId, ?_,
        headerFound_eq hnodup hother huid hmailbox hheader⟩
      exact List.mem_toFinset.mpr (hfound.mpr ⟨other, hother, rfl, uid, huid⟩)
  have hweight : ∀ msgid ∈ taken.found.toFinset, (folded (sanitizeImapString msgid)).length ≤
      (folded (sanitizeImapString (headerFound dovecot pre rows msgid))).length := by
    intro msgid hmsgid
    obtain ⟨row, hrow, rfl, uid, huid⟩ := hfound.mp (List.mem_toFinset.mp hmsgid)
    obtain ⟨mailbox, header, hmailbox, hheader, hinfix⟩ := firstHit_spec huid
    rw [headerFound_eq hnodup hrow huid hmailbox hheader]
    exact (folded_inside hinfix).length_le
  obtain ⟨hinj, hall⟩ := map_onto honto hweight
  intro row hrow uid huid
  obtain ⟨mailbox, header, hmailbox, hheader, hinfix⟩ := firstHit_spec huid
  have hmem : row.messageId ∈ taken.found.toFinset :=
    List.mem_toFinset.mpr (hfound.mpr ⟨row, hrow, rfl, uid, huid⟩)
  have heq := headerFound_eq hnodup hrow huid hmailbox hheader
  obtain ⟨hheadermem, hlength⟩ := hall _ hmem
  rw [heq] at hheadermem hlength
  -- The two Message-Ids are the same to a search, and lie in the same folder.
  have hfolded := (folded_inside hinfix).eq_of_length hlength
  obtain ⟨other, hother, hotherid, -⟩ := hfound.mp (List.mem_toFinset.mp hheadermem)
  obtain ⟨entry, hentry, haccount, hlive, hfolder, hid⟩ :=
    hagrees.indexed _ mailbox uid header hmailbox hheader
  have hthere : entry.2 ∈ rows := by
    rw [hrows] at hother ⊢
    obtain ⟨-, -, -, hrequested, -⟩ := mem_requestedRows.mp hother
    rw [hotherid, ← hid] at hrequested
    exact mem_requestedRows.mpr ⟨entry.1, hentry, haccount, hrequested, hlive⟩
  have hkey : mailboxKey pre entry.2.folderPath = mailboxKey pre row.folderPath := by
    rw [hfolder, mailboxKey, mailboxKey, sanitizeImapString_idem]
  have hsamehit : firstHit dovecot pre (entry.2.folderPath, entry.2.messageId) = some uid := by
    rw [← huid]
    exact firstHit_congr hkey (hid ▸ hfolded.symm)
  have hsame := headerFound_eq hnodup hthere hsamehit (hkey ▸ hmailbox) hheader
  rw [hid] at hsame
  rw [hmailbox, Option.bind_some, hheader, hinj hmem hheadermem (heq.trans hsame.symm)]

end Lookup

/-- A lookup that returns is right exactly when what is found first for each Message-Id carries
it. -/
theorem rightlyResolved_iff {H : Type} {hash : String → H} {db : SearchDb H} {accountId : Id}
    {account : Account} {dovecot : Dovecot} {unordered : Unordered (MessageKey H × MessageRow)}
    {messageIds : List String} {tr : List (Event DovecotOp DovecotOp.Reply Unit)}
    {r : ResolvedUids} {s t : Option Mailbox}
    (hagrees : IndexAgrees hash dovecot.mailboxes (accountNamespacePrefix accountId account)
      accountId db.messages)
    (hrun : Run dovecot.serve (resolveUidsForAccount accountId account
      (requestedRows unordered db accountId messageIds) messageIds) s tr (.ret r) t) :
    RightlyResolved dovecot messageIds r ↔
      FirstHitsExact dovecot (accountNamespacePrefix accountId account)
        (requestedRows unordered db accountId messageIds) := by
  obtain ⟨-, taken, htaken, hresolved, hmissing⟩ := resolveUids_safe.run hrun
  constructor
  · exact exact_of_rightlyResolved hagrees rfl htaken hresolved hmissing
  · intro hexact
    refine rightlyResolved_of_exact hexact ?_ (nodup_requested hagrees) htaken hresolved hmissing
    intro row hrow
    obtain ⟨-, -, -, hid, -⟩ := mem_requestedRows.mp hrow
    exact hid

/-! ## An inbox with two messages -/

def inboxRow (msgid : String) : MessageRow where
  messageId := msgid
  folderPath := "INBOX"
  maildirFilename := "1"
  firstSeenAt := 0
  lastSeenAt := 0

theorem nodup_twoUids (first second : String) :
    ([("1", first), ("2", second)].map Prod.fst).Nodup :=
  (by decide : ["1", "2"].Nodup)

def inboxOf (pre first second : String) : Dovecot where
  mailboxes name :=
    if name = pre ++ "INBOX" then some ⟨[("1", first), ("2", second)], nodup_twoUids first second⟩
    else none

theorem inboxOf_mailboxes (pre first second : String) :
    (inboxOf pre first second).mailboxes (pre ++ "INBOX") =
      some ⟨[("1", first), ("2", second)], nodup_twoUids first second⟩ := if_pos rfl

/-- The index of an account with two messages, where the hash is the Message-Id. -/
def indexOf (first second : String) : Multiset (MessageKey String × MessageRow) :=
  {(("a1", first), inboxRow first), (("a1", second), inboxRow second)}

theorem mem_indexOf {first second : String} {r : MessageKey String × MessageRow} :
    r ∈ indexOf first second ↔
      r = (("a1", first), inboxRow first) ∨ r = (("a1", second), inboxRow second) := by
  simp [indexOf]

theorem indexOf_agrees {pre first second : String} (hne : first ≠ second) :
    IndexAgrees id (inboxOf pre first second).mailboxes pre "a1" (indexOf first second) where
  nodup := by simp [indexOf, hne]
  hashed r hr := by
    obtain rfl | rfl := mem_indexOf.mp hr <;> rfl
  live r hr _ _ := by
    obtain rfl | rfl := mem_indexOf.mp hr
    · exact ⟨_, "1", inboxOf_mailboxes .., rfl⟩
    · exact ⟨_, "2", inboxOf_mailboxes .., rfl⟩
  indexed folder mailbox uid msgid hmailbox hmsgid := by
    obtain ⟨hname, hmailbox⟩ := Option.ite_none_right_eq_some.mp hmailbox
    obtain rfl := Option.some.inj hmailbox
    have hfolder : folder = "INBOX" := by
      have htoList := congrArg String.toList hname
      rw [String.toList_append, String.toList_append, List.append_cancel_left_eq] at htoList
      exact String.ext htoList
    have hmem := Table.mem_rows.mpr hmsgid
    simp only [List.mem_cons, Prod.mk.injEq, List.not_mem_nil, or_false] at hmem
    obtain ⟨-, rfl⟩ | ⟨-, rfl⟩ := hmem
    · exact ⟨_, mem_indexOf.mpr (.inl rfl), rfl, rfl, hfolder.symm, rfl⟩
    · exact ⟨_, mem_indexOf.mpr (.inr rfl), rfl, rfl, hfolder.symm, rfl⟩

/-- A server on which nothing fails. -/
def Dovecot.reply (dovecot : Dovecot) (s : Option Mailbox) :
    (o : DovecotOp) → Except Unit (DovecotOp.Reply o)
  | .select target => .ok (dovecot.seen (unquoted target)).isSome
  | .uidSearch criteria _ => .ok (s.bind fun mailbox => mailbox.answer criteria)
  | .connect _ | .logout | .deleteTempImapUser => .ok ()
  | _ => .error ()

noncomputable def anyOrder : Unordered (MessageKey String × MessageRow) :=
  .sorting _ (fun _ _ _ _ _ => trivial) fun _ _ => .inl trivial

def inboxAccount : Account := { maildirPath := "/mail/a1", storeId := "s1" }

def inboxDb (first second : String) : SearchDb String :=
  { Access.sampleDb with messages := indexOf first second }

theorem requestedRows_second {first second : String} (hne : first ≠ second) :
    requestedRows anyOrder (inboxDb first second) "a1" [second] = [inboxRow second] := by
  have hfilter : ((inboxDb first second).messages.filter fun r => r.1.1 = "a1" ∧
      r.2.messageId ∈ [second] ∧ r.2.deletedAt = none) = {(("a1", second), inboxRow second)} := by
    change (indexOf first second).filter _ = _
    rw [indexOf, Multiset.insert_eq_cons, Multiset.filter_cons_of_neg _ (by simp [inboxRow, hne]),
      Multiset.filter_singleton]
    simp [inboxRow]
  have hlist := anyOrder.coe_list {(("a1", second), inboxRow second)}
  rw [Multiset.coe_eq_singleton] at hlist
  rw [requestedRows, hfilter, hlist]
  rfl

/-- The lookup of the second message, when its search finds this first. -/
theorem exists_lookup {first second uid : String} (hne : first ≠ second)
    (h : (exec (inboxOf (accountNamespacePrefix "a1" inboxAccount) first second).serve
      (fun o s => (inboxOf (accountNamespacePrefix "a1" inboxAccount) first second).reply s o) 20
      (resolveUidsForAccount "a1" inboxAccount [inboxRow second] [second]) none).any
        (fun x => x.1.returned.any fun r =>
          decide (r.resolved.get? (accountNamespacePrefix "a1" inboxAccount ++ "INBOX") = some [uid])) =
        true) :
    ∃ tr r t, Run (inboxOf (accountNamespacePrefix "a1" inboxAccount) first second).serve
      (resolveUidsForAccount "a1" inboxAccount
        (requestedRows anyOrder (inboxDb first second) "a1" [second]) [second]) none tr (.ret r) t ∧
      r.resolved.get? (accountNamespacePrefix "a1" inboxAccount ++ "INBOX") = some [uid] := by
  obtain ⟨tr, p, t, hrun, hp⟩ := exec_any h
  obtain ⟨r, hr, huid⟩ := (Option.any_eq_true ..).mp hp
  obtain rfl := Prog.returned_eq_some hr
  rw [requestedRows_second hne]
  exact ⟨tr, r, t, hrun, of_decide_eq_true huid⟩

/-- The search for `a@x` finds `aa@x` first, and its UID is returned. -/
theorem not_rightlyResolved : ¬ ∀ (hash : String → String) (db : SearchDb String) (accountId : Id)
    (account : Account) (dovecot : Dovecot) (unordered : Unordered (MessageKey String × MessageRow))
    (messageIds : List String) (tr : List (Event DovecotOp DovecotOp.Reply Unit)) (r : ResolvedUids)
    (s t : Option Mailbox),
    IndexAgrees hash dovecot.mailboxes (accountNamespacePrefix accountId account) accountId
      db.messages →
    Run dovecot.serve (resolveUidsForAccount accountId account
      (requestedRows unordered db accountId messageIds) messageIds) s tr (.ret r) t →
    RightlyResolved dovecot messageIds r := by
  intro h
  have hne : "aa@x" ≠ "a@x" := by decide
  obtain ⟨tr, r, t, hrun, huid⟩ := @exists_lookup "aa@x" "a@x" "1" hne (by decide +kernel)
  have hright := h id _ _ _ _ _ _ tr r none t (indexOf_agrees hne) hrun
  obtain ⟨mailbox, msgid, hmailbox, hmsgid, hrequested⟩ :=
    hright.carries _ ["1"] "1" huid List.mem_cons_self
  rw [inboxOf_mailboxes] at hmailbox
  obtain rfl := Option.some.inj hmailbox
  obtain rfl := Option.some.inj hmsgid
  exact absurd hrequested (by decide)

/-- Between brackets no Message-Id is part of another. -/
theorem brackets_rightlyResolved : ∃ tr r t,
    Run (inboxOf (accountNamespacePrefix "a1" inboxAccount) "<aa@x>" "<a@x>").serve
      (resolveUidsForAccount "a1" inboxAccount
        (requestedRows anyOrder (inboxDb "<aa@x>" "<a@x>") "a1" ["<a@x>"]) ["<a@x>"])
      none tr (.ret r) t ∧
    RightlyResolved (inboxOf (accountNamespacePrefix "a1" inboxAccount) "<aa@x>" "<a@x>") ["<a@x>"]
      r := by
  have hne : "<aa@x>" ≠ "<a@x>" := by decide
  obtain ⟨tr, r, t, hrun, -⟩ := @exists_lookup "<aa@x>" "<a@x>" "2" hne (by decide +kernel)
  refine ⟨tr, r, t, hrun, (rightlyResolved_iff (indexOf_agrees hne) hrun).mpr ?_⟩
  rw [requestedRows_second hne]
  intro row hrow uid huid
  obtain rfl := List.mem_singleton.mp hrow
  have hfirst : firstHit (inboxOf (accountNamespacePrefix "a1" inboxAccount) "<aa@x>" "<a@x>")
      (accountNamespacePrefix "a1" inboxAccount) ("INBOX", "<a@x>") = some "2" := by decide +kernel
  obtain rfl : "2" = uid := Option.some.inj (hfirst.symm.trans huid)
  decide +kernel

end MailFallback.Search
