import MailFallback.Index.Semantics
import MailFallback.Library.Catalogue

/-! # The index as a catalogue

A row of the index is the entry of a Message-Id, and the files of the maildir are its copies:
the pointer is the place, and the Bcc addresses are the labels. -/

namespace MailFallback.Index

open Storage Catalogue

variable {C H : Type*}

/-! ## Files -/

section Files

variable (reader : Reader C H)

def File.hash (f : File C) : Option H := (parseHeaders reader f.content).map Parsed.messageIdHash

def Parsed.copy (parsed : Parsed H) (f : File C) : Copy Key H String :=
  ⟨f.key, parsed.messageIdHash, {a | a ∈ parsed.bccAddrs.getD []}⟩

def copyOf (f : File C) : Option (Copy Key H String) :=
  (parseHeaders reader f.content).map fun parsed => parsed.copy f

/-- The messages on disk, in the order the walk meets them. -/
def copies (files : List (File C)) : List (Copy Key H String) := files.filterMap (copyOf reader)

/-- A message with the Message-Id is on disk. -/
def OnDisk (files : List (File C)) (h : H) : Prop := ∃ f ∈ files, f.hash reader = some h

end Files

/-! ## Rows -/

def MessageRow.entry (row : MessageRow) : Entry Key String :=
  ⟨row.pointer, row.deletedAt.isNone, {a | a ∈ row.bccAddrs.getD []}⟩

section

variable [DecidableEq H]

def catalogue (messages : Table H MessageRow) (h : H) : Option (Entry Key String) :=
  (messages.get? h).map MessageRow.entry

/-- The state of disk and index that a run relies on. -/
structure Consistent (reader : Reader C H) (files : List (File C))
    (messages : Table H MessageRow) : Prop where
  readable : ∀ f ∈ files, f.content.isSome = true
  distinct : (files.map File.key).Nodup
  apart : ∀ {h h' row row'}, messages.get? h = some row → messages.get? h' = some row' →
    row.pointer = row'.pointer → h = h'
  named : ∀ {h row f}, messages.get? h = some row → f ∈ files → f.key = row.pointer →
    f.hash reader = some h

end

/-! ## The copies on disk -/

variable {reader : Reader C H} {files pre : List (File C)} {f : File C} {h : H}
  {parsed : Parsed H}

@[simp] theorem Parsed.copy_name : (parsed.copy f).name = parsed.messageIdHash := rfl

@[simp] theorem Parsed.copy_place : (parsed.copy f).place = f.key := rfl

theorem copyOf_some (hparsed : parseHeaders reader f.content = some parsed) :
    copyOf reader f = some (parsed.copy f) := by
  simp [copyOf, hparsed]

theorem copyOf_none (hparsed : parseHeaders reader f.content = none) : copyOf reader f = none := by
  simp [copyOf, hparsed]

theorem copyOf_eq_some {c : Copy Key H String} (h : copyOf reader f = some c) :
    c.place = f.key ∧ f.hash reader = some c.name := by
  obtain ⟨parsed, hparsed, rfl⟩ := Option.map_eq_some_iff.mp h
  exact ⟨rfl, by simp [File.hash, hparsed, Parsed.copy]⟩

theorem copyOf_of_hash (hhash : f.hash reader = some h) :
    ∃ c, copyOf reader f = some c ∧ c.place = f.key ∧ c.name = h := by
  obtain ⟨parsed, hparsed, rfl⟩ := Option.map_eq_some_iff.mp hhash
  exact ⟨parsed.copy f, copyOf_some hparsed, rfl, rfl⟩

theorem copies_append : copies reader (pre ++ [f]) = copies reader pre ++ (copyOf reader f).toList := by
  rw [copies, List.filterMap_append]
  cases hcopy : copyOf reader f <;> simp [copies, hcopy]

theorem onDisk_iff : OnDisk reader files h ↔ ∃ c ∈ copies reader files, c.name = h := by
  constructor
  · intro hdisk
    obtain ⟨f, hf, hhash⟩ := hdisk
    obtain ⟨c, hcopy, -, hname⟩ := copyOf_of_hash hhash
    exact ⟨c, List.mem_filterMap.mpr ⟨f, hf, hcopy⟩, hname⟩
  · intro hcopies
    obtain ⟨c, hc, rfl⟩ := hcopies
    obtain ⟨f, hf, hcopy⟩ := List.mem_filterMap.mp hc
    exact ⟨f, hf, (copyOf_eq_some hcopy).2⟩

theorem copies_places_sublist :
    ((copies reader files).map Copy.place).Sublist (files.map File.key) := by
  induction files with
  | nil => simp [copies]
  | cons f files ih =>
      cases hcopy : copyOf reader f with
      | none =>
          rw [copies, List.filterMap_cons_none hcopy]
          exact ih.cons _
      | some c =>
          rw [copies, List.filterMap_cons_some hcopy, List.map_cons, List.map_cons,
            (copyOf_eq_some hcopy).1]
          exact ih.cons_cons _

theorem copies_distinct (hdistinct : (files.map File.key).Nodup) :
    ((copies reader files).map Copy.place).Nodup :=
  hdistinct.sublist copies_places_sublist

/-! ## The catalogue of the rows -/

variable [DecidableEq H] {messages : Table H MessageRow} {row : MessageRow}

theorem catalogue_eq_some {e : Entry Key String} :
    catalogue messages h = some e ↔ ∃ row, messages.get? h = some row ∧ row.entry = e :=
  Option.map_eq_some_iff

theorem catalogue_set (h' : H) :
    catalogue (messages.set h row) h' = if h' = h then some row.entry else catalogue messages h' := by
  unfold catalogue
  rw [Table.get?_set]
  by_cases heq : h' = h <;> simp [heq]

/-- A change of one row that changes its entry in a known way. -/
theorem catalogue_modify {change : MessageRow → MessageRow}
    (changeEntry : Entry Key String → Entry Key String)
    (hentry : ∀ row, (change row).entry = changeEntry row.entry) (h' : H) :
    catalogue (messages.modify h change) h' =
      if h' = h then (catalogue messages h').map changeEntry else catalogue messages h' := by
  unfold catalogue
  rw [Table.get?_modify]
  by_cases heq : h' = h
  · simp only [heq, if_true, Option.map_map]
    congr 1
    funext row
    exact hentry row
  · simp [heq]

theorem Consistent.sound (hconsistent : Consistent reader files messages) :
    Sound (copies reader files) (catalogue messages) where
  apart := by
    intro h h' e e' he he' hplace
    obtain ⟨row, hrow, rfl⟩ := catalogue_eq_some.mp he
    obtain ⟨row', hrow', rfl⟩ := catalogue_eq_some.mp he'
    exact hconsistent.apart hrow hrow' hplace
  named := by
    intro h e c he hc hplace
    obtain ⟨row, hrow, rfl⟩ := catalogue_eq_some.mp he
    obtain ⟨f, hf, hcopy⟩ := List.mem_filterMap.mp hc
    obtain ⟨hkey, hhash⟩ := copyOf_eq_some hcopy
    have hname := hconsistent.named hrow hf (hkey.symm.trans hplace)
    exact Option.some.inj (hhash.symm.trans hname)

/-- A file lies where a row points just when a copy does. -/
theorem Consistent.found_iff (hconsistent : Consistent reader files messages)
    (hrow : messages.get? h = some row) :
    Found (copies reader files) row.pointer ↔ ∃ f ∈ files, f.key = row.pointer := by
  constructor
  · intro hfound
    obtain ⟨c, hc, hplace⟩ := hfound
    obtain ⟨f, hf, hcopy⟩ := List.mem_filterMap.mp hc
    exact ⟨f, hf, (copyOf_eq_some hcopy).1.symm.trans hplace⟩
  · intro hfile
    obtain ⟨f, hf, hkey⟩ := hfile
    obtain ⟨c, hcopy, hplace, -⟩ := copyOf_of_hash (hconsistent.named hrow hf hkey)
    exact ⟨c, List.mem_filterMap.mpr ⟨f, hf, hcopy⟩, hplace.trans hkey⟩

/-- Rows that are on their way from consistent ones are consistent. -/
theorem Consistent.underway (hconsistent : Consistent reader files messages)
    {later : Table H MessageRow}
    (hunderway : ∀ h, Underway (copies reader files) h (catalogue messages h) (catalogue later h)) :
    Consistent reader files later where
  readable := hconsistent.readable
  distinct := hconsistent.distinct
  apart := by
    intro h h' row row' hrow hrow' hpointer
    have hsound := hconsistent.sound.underway (copies_distinct hconsistent.distinct) hunderway
    exact hsound.apart (catalogue_eq_some.mpr ⟨row, hrow, rfl⟩)
      (catalogue_eq_some.mpr ⟨row', hrow', rfl⟩) hpointer
  named := by
    intro h row f hrow hf hkey
    have hlater := hunderway h
    rw [catalogue_eq_some.mpr ⟨row, hrow, rfl⟩] at hlater
    rcases hlater.place with ⟨e, he, hplace⟩ | ⟨c, hc, hname, hplace⟩
    · obtain ⟨row₀, hrow₀, rfl⟩ := catalogue_eq_some.mp he
      exact hconsistent.named hrow₀ hf (hkey.trans hplace)
    · obtain ⟨f', hf', hcopy⟩ := List.mem_filterMap.mp hc
      obtain ⟨hkey', hhash'⟩ := copyOf_eq_some hcopy
      have hsame := List.inj_on_of_nodup_map hconsistent.distinct hf hf'
        (hkey.trans (hplace.trans hkey'))
      rw [hsame, hhash', hname]

end MailFallback.Index
