import Depfile.Toml.Document

/-!
# Keys of a document

Whatever the lines of a document are, no key has two values in its root table. Keys enter a table in
one place each, as new ones (`Entries.HasDistinctKeys.modify`), a line does one of four things to the
draft that it is read into (`line?_cases`), and each of them keeps the keys distinct
(`Draft.HasDistinctKeys.line?`).
-/

namespace Depfile.Toml

variable {entries entries' : Entries} {key : Text} {node : Node}

/-! ## Tables -/

namespace Entries

/-- No key has two values. -/
def HasDistinctKeys (entries : Entries) : Prop :=
  (entries.map Prod.fst).Nodup

theorem hasDistinctKeys_nil : HasDistinctKeys [] :=
  List.nodup_nil

theorem notMem_keys_of_lookup (h : entries.lookup key = none) : key ∉ entries.map Prod.fst := by
  intro hkey
  rcases List.mem_map.1 hkey with ⟨entry, hentry, rfl⟩
  have hother := List.lookup_eq_none_iff.1 h entry hentry
  simp at hother

namespace HasDistinctKeys

theorem append (h : entries.HasDistinctKeys) (hnew : entries.lookup key = none) :
    HasDistinctKeys (entries ++ [(key, node)]) := by
  have hkey := notMem_keys_of_lookup hnew
  simp only [HasDistinctKeys, List.map_append, List.map_cons, List.map_nil]
  refine List.nodup_append.2 ⟨h, by simp, ?_⟩
  intro old hold new hnew heq
  have hnew : new = key := by simpa using hnew
  exact hkey (hnew ▸ heq ▸ hold)

/-- A value that takes the place of another one leaves the keys as they are. -/
theorem set (h : entries.HasDistinctKeys) : HasDistinctKeys (entries.set key node) := by
  have hkeys : (entries.set key node).map Prod.fst = entries.map Prod.fst := by
    simp only [Entries.set, List.map_map]
    refine List.map_congr_left (fun entry _ => ?_)
    by_cases hentry : entry.1 = key
    · simp [hentry]
    · simp [hentry]
  simpa [HasDistinctKeys, hkeys] using h

theorem erase (h : entries.HasDistinctKeys) : HasDistinctKeys (entries.erase key) :=
  (List.filter_sublist.map Prod.fst).nodup h

end HasDistinctKeys

/-- Going down a path changes one entry of the table that the path starts at, or adds one. -/
theorem modify_cons_cases {α : Type} {dotted : Bool}
    {change : Origin → Entries → Option (Entries × α)} {path : List Text} {origin : Origin}
    {result : α} (h : modify dotted change (key :: path) origin entries = some (entries', result)) :
    (entries.lookup key = none ∧ ∃ node, entries' = entries ++ [(key, node)]) ∨
      ∃ node, entries' = entries.set key node := by
  rw [modify] at h
  split at h
  · -- There is no such key.
    rename_i hnew
    simp only [Option.bind_eq_bind, Option.bind_eq_some_iff, Option.pure_def] at h
    rcases h with ⟨⟨inner, _⟩, _, heq⟩
    cases heq
    exact Or.inl ⟨hnew, _, rfl⟩
  · -- The path goes on in the table of the key.
    split at h
    · cases h
    · simp only [Option.bind_eq_bind, Option.bind_eq_some_iff, Option.pure_def] at h
      rcases h with ⟨⟨inner, _⟩, _, heq⟩
      cases heq
      exact Or.inr ⟨_, rfl⟩
  · -- The path goes on in the last table of a list.
    split at h
    · cases h
    · simp only [Option.bind_eq_bind, Option.bind_eq_some_iff, Option.pure_def] at h
      rcases h with ⟨⟨last, _⟩, _, heq⟩
      cases heq
      exact Or.inr ⟨_, rfl⟩
  · cases h

/-- The change at the end of a path has to keep keys distinct, because the path can be empty. -/
theorem HasDistinctKeys.modify {α : Type} {dotted : Bool}
    {change : Origin → Entries → Option (Entries × α)} {path : List Text} {origin : Origin}
    {result : α}
    (hchange : ∀ origin entries entries' result, change origin entries = some (entries', result) →
      entries.HasDistinctKeys → entries'.HasDistinctKeys)
    (h : entries.HasDistinctKeys)
    (hmodify : Entries.modify dotted change path origin entries = some (entries', result)) :
    entries'.HasDistinctKeys := by
  cases path with
  | nil => exact hchange origin entries entries' result hmodify h
  | cons key path =>
    rcases modify_cons_cases hmodify with ⟨hnew, node, rfl⟩ | ⟨node, rfl⟩
    · exact h.append hnew
    · exact h.set

theorem HasDistinctKeys.insert {path : List Text} (h : entries.HasDistinctKeys)
    (hinsert : entries.insert path key node = some entries') : entries'.HasDistinctKeys := by
  simp only [Entries.insert, Option.map_eq_some_iff] at hinsert
  rcases hinsert with ⟨⟨_, _⟩, hmodify, rfl⟩
  refine h.modify ?_ hmodify
  intro origin entries entries' result hchange hdistinct
  split at hchange
  · cases hchange
  · split at hchange
    · cases hchange
    · rename_i hnew
      cases hchange
      exact hdistinct.append (Option.not_isSome_iff_eq_none.1 hnew)

end Entries

/-! ## Documents in the making -/

/-- No key has two values in the table that is going to be the root of the document. That is the one
that lines are added to until the first header, and from then on the one of the finished tables. -/
structure Draft.HasDistinctKeys (draft : Draft) : Prop where
  finished : draft.finished.HasDistinctKeys
  entries : draft.path = [] → draft.entries.HasDistinctKeys

namespace Draft.HasDistinctKeys

variable {draft draft' : Draft} {path : List Text}

theorem empty : Draft.empty.HasDistinctKeys :=
  ⟨Entries.hasDistinctKeys_nil, fun _ => Entries.hasDistinctKeys_nil⟩

theorem close (h : draft.HasDistinctKeys) (hclose : draft.close = some entries) :
    entries.HasDistinctKeys := by
  unfold Draft.close at hclose
  split at hclose
  · rename_i hpath
    cases hclose
    exact h.entries (List.getLast?_eq_none_iff.1 hpath)
  · simp only [Option.map_eq_some_iff] at hclose
    rcases hclose with ⟨⟨_, _⟩, hmodify, rfl⟩
    refine h.finished.modify ?_ hmodify
    intro origin entries entries' result hchange hdistinct
    split at hchange
    · rename_i hnew _
      cases hchange
      exact hdistinct.append hnew
    · cases hchange
      exact hdistinct.set
    · rename_i hnew _
      cases hchange
      exact hdistinct.append hnew
    · cases hchange

theorem insert (h : draft.HasDistinctKeys) (hinsert : draft.insert path key node = some draft') :
    draft'.HasDistinctKeys := by
  simp only [Draft.insert, Option.bind_eq_bind, Option.bind_eq_some_iff, Option.pure_def] at hinsert
  rcases hinsert with ⟨entries, hentries, heq⟩
  cases heq
  exact ⟨h.finished, fun hpath => (h.entries hpath).insert hentries⟩

theorem openTable (h : draft.HasDistinctKeys) (hopen : draft.openTable path = some draft') :
    draft'.HasDistinctKeys := by
  simp only [Draft.openTable, Option.bind_eq_bind, Option.bind_eq_some_iff, Option.pure_def] at hopen
  rcases hopen with ⟨key, hkey, finished, hclose, ⟨finished', _⟩, hmodify, heq⟩
  cases heq
  refine ⟨(h.close hclose).modify ?_ hmodify, ?_⟩
  · intro origin entries entries' result hchange hdistinct
    split at hchange
    · cases hchange
      exact hdistinct
    · cases hchange
      exact hdistinct.erase
    · cases hchange
  · -- The path of a header has a last name.
    rintro rfl
    cases hkey

theorem openElement (h : draft.HasDistinctKeys) (hopen : draft.openElement path = some draft') :
    draft'.HasDistinctKeys := by
  simp only [Draft.openElement, Option.bind_eq_bind, Option.bind_eq_some_iff, Option.pure_def]
    at hopen
  rcases hopen with ⟨key, hkey, finished, hclose, ⟨finished', _⟩, hmodify, heq⟩
  cases heq
  refine ⟨(h.close hclose).modify ?_ hmodify, ?_⟩
  · intro origin entries entries' result hchange hdistinct
    split at hchange
    · rename_i hnew
      cases hchange
      exact hdistinct.append hnew
    · cases hchange
      exact hdistinct
    · cases hchange
  · rintro rfl
    cases hkey

end Draft.HasDistinctKeys

/-! ## Lines -/

variable {draft draft' : Draft} {text rest : Text}

/-- A line says nothing, starts a table or an element of a list of tables, or adds a value. -/
theorem line?_cases (h : line? draft text = some (draft', rest)) :
    draft' = draft ∨ (∃ path, draft.openElement path = some draft') ∨
      (∃ path, draft.openTable path = some draft') ∨
      ∃ path key node, draft.insert path key node = some draft' := by
  unfold line? at h
  split at h
  · -- A comment.
    simp only [Option.bind_eq_bind, Option.bind_eq_some_iff, Option.pure_def] at h
    rcases h with ⟨_, _, heq⟩
    cases heq
    exact Or.inl rfl
  · -- The header of an element.
    simp only [Option.bind_eq_bind, Option.bind_eq_some_iff, Option.pure_def] at h
    rcases h with ⟨⟨path, _⟩, _, _, _, _, _, _, _, draft', hopen, heq⟩
    cases heq
    exact Or.inr (Or.inl ⟨path, hopen⟩)
  · -- The header of a table.
    simp only [Option.bind_eq_bind, Option.bind_eq_some_iff, Option.pure_def] at h
    rcases h with ⟨⟨path, _⟩, _, _, _, _, _, draft', hopen, heq⟩
    cases heq
    exact Or.inr (Or.inr (Or.inl ⟨path, hopen⟩))
  · split at h
    · cases h
      exact Or.inl rfl
    · simp only [Option.bind_eq_bind, Option.bind_eq_some_iff, Option.pure_def] at h
      rcases h with ⟨⟨names, _⟩, _, _, _, ⟨node, _⟩, _, _, _, name, _, draft', hinsert, heq⟩
      cases heq
      exact Or.inr (Or.inr (Or.inr ⟨names.dropLast, name, node, hinsert⟩))

theorem Draft.HasDistinctKeys.line? (h : draft.HasDistinctKeys)
    (hline : Toml.line? draft text = some (draft', rest)) : draft'.HasDistinctKeys := by
  rcases line?_cases hline with rfl | ⟨path, hopen⟩ | ⟨path, hopen⟩ | ⟨path, key, node, hinsert⟩
  · exact h
  · exact h.openElement hopen
  · exact h.openTable hopen
  · exact h.insert hinsert

theorem Draft.HasDistinctKeys.linesWith? {fuel : Nat} (h : draft.HasDistinctKeys)
    (hlines : Toml.linesWith? fuel draft text = some entries) : entries.HasDistinctKeys := by
  induction fuel generalizing draft text with
  | zero => cases hlines
  | succ fuel ih =>
    rw [Toml.linesWith?] at hlines
    split at hlines
    · exact h.close hlines
    · simp only [Option.bind_eq_bind, Option.bind_eq_some_iff] at hlines
      rcases hlines with ⟨⟨draft', rest⟩, hline, hrest⟩
      exact ih (h.line? hline) hrest

/-- No key has two values in a document. -/
theorem hasDistinctKeys_of_document? (h : document? text = some entries) :
    entries.HasDistinctKeys :=
  Draft.HasDistinctKeys.empty.linesWith? h

end Depfile.Toml
