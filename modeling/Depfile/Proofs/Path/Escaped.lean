import Depfile.Proofs.Path.Relative
import Depfile.Proofs.Token.Escape

/-!
# Paths that are still escaped

A path can be cut, compared and made relative before its escapes are resolved: separators are never
escaped, and a directory without any character that takes part in escapes does not notice them.
The paths have no whitespace, so that a backslash or a dollar sign in front of a character is there
because of a mark (`escapeChar_cases`).

* `components_escape`: escaping commutes with cutting;
* `append_eq_escape_iff`, `isUnder_escape`: what an unmarked directory sees of an escaped path;
* `relativeTo_escape`: escaping commutes with making a path relative.
-/

namespace Depfile.Path

open Token

variable {path dir : Text}

/-! ## Cutting and joining -/

theorem foldr_consSegment {front first : Text} {others : List Text} (h : '/' ∉ front) :
    front.foldr consSegment (first :: others) = (front ++ first) :: others := by
  induction front with
  | nil => rfl
  | cons c front ih =>
    simp only [List.mem_cons, not_or] at h
    simp [ih h.2, consSegment, Ne.symm h.1]

theorem slash_notMem_escapeChar {c : Char} (hc : c ≠ '/') : '/' ∉ escapeChar c := by
  rcases escapeChar_cases c with ⟨_, hwritten⟩ | ⟨_, hwritten⟩ | ⟨_, _, hwritten⟩ <;>
    simp [hwritten, Ne.symm hc]

theorem slash_notMem_escape {name : Text} (h : '/' ∉ name) : '/' ∉ escape name := by
  intro hslash
  rcases List.mem_flatMap.1 hslash with ⟨c, hc, hslash⟩
  exact slash_notMem_escapeChar (fun heq => h (heq ▸ hc)) hslash

theorem segments_escape (path : Text) : segments (escape path) = (segments path).map escape := by
  induction path with
  | nil => rfl
  | cons c path ih =>
    rcases List.exists_cons_of_ne_nil (segments_ne_nil path) with ⟨first, others, hpath⟩
    have hsegments : segments (escape (c :: path)) =
        (escapeChar c).foldr consSegment (escape first :: others.map escape) := by
      rw [hpath] at ih
      simp only [segments] at ih
      simp [segments, escape_cons, ih]
    have hcons : segments (c :: path) = consSegment c (first :: others) := by rw [← hpath]; rfl
    rw [hsegments, hcons]
    by_cases hc : c = '/'
    · rw [hc]
      rfl
    · -- However many characters are written for this one, they all go into the first segment.
      rw [foldr_consSegment (slash_notMem_escapeChar hc)]
      simp [consSegment, hc, escape_cons]

theorem components_escape (path : Text) :
    components (escape path) = (components path).map escape := by
  have hempty : (fun segment : Text => !segment.isEmpty) ∘ escape =
      fun segment : Text => !segment.isEmpty := by
    funext segment
    cases segment <;> simp [escape, escapeChar_ne_nil]
  rw [components, segments_escape, List.filter_map, hempty]
  rfl

theorem join_map_escape (names : List Text) : join (names.map escape) = escape (join names) := by
  induction names with
  | nil => rfl
  | cons first rest ih =>
    cases rest with
    | nil => rfl
    | cons second rest =>
      have hslash : escape ('/' :: join (second :: rest)) = '/' :: escape (join (second :: rest)) :=
        rfl
      rw [List.map_cons] at ih
      simp only [List.map_cons, join_cons_cons, escape_append, hslash, ih]

/-! ## Comparing -/

theorem isAbsolute_escape (path : Text) : isAbsolute (escape path) = isAbsolute path := by
  cases path with
  | nil => rfl
  | cons c path =>
    by_cases hc : c = '/'
    · rw [hc]
      rfl
    · rcases escapeChar_cases c with ⟨_, hwritten⟩ | ⟨_, hwritten⟩ | ⟨_, _, hwritten⟩ <;>
        simp [escape_cons, hwritten, isAbsolute, hc]

theorem isAbsolute_escape_append (path : Text) {suffix : Text} (h : isAbsolute suffix = false) :
    isAbsolute (escape path ++ suffix) = isAbsolute path := by
  by_cases hnil : path = []
  · rw [hnil]
    exact h
  · have hescape : escape path ≠ [] := by simpa [escape_eq_nil_iff] using hnil
    rw [isAbsolute_append_of_ne_nil hescape, isAbsolute_escape]

theorem atBoundary_iff {rest : Text} :
    AtBoundary dir rest ↔ dir.getLast? = some '/' ∨ rest = [] ∨ isAbsolute rest = true := by
  rw [AtBoundary, isAbsolute_iff]

/-- The directories above an escaped path are those above the path. -/
theorem isUnder_escape (hdir : Unmarked dir) (hpath : Spaceless path) :
    isUnder (escape path) dir = isUnder path dir := by
  have hboundary : ∀ tail, AtBoundary dir (escape tail) ↔ AtBoundary dir tail := by
    intro tail
    rw [atBoundary_iff, atBoundary_iff, escape_eq_nil_iff, isAbsolute_escape]
  rw [Bool.eq_iff_iff, isUnder_iff, isUnder_iff]
  -- The prefix is unmarked, so it is the same before and after, and the remainder is escaped.
  constructor
  · rintro ⟨hne, rest, heq, hseam⟩
    rcases (append_eq_escape_iff rest hdir hpath).1 heq.symm with ⟨tail, rfl, rfl⟩
    exact ⟨hne, tail, rfl, (hboundary tail).1 hseam⟩
  · rintro ⟨hne, tail, rfl, hseam⟩
    have heq := (append_eq_escape_iff (escape tail) hdir hpath).2 ⟨tail, rfl, rfl⟩
    exact ⟨hne, escape tail, heq.symm, (hboundary tail).2 hseam⟩

/-! ## Making relative -/

theorem unmarked_here : Unmarked here := by
  simp [Unmarked, IsMark, here]

theorem unmarked_parent : Unmarked parent := by
  simp [Unmarked, IsMark, parent]

theorem spaceless_of_mem {component : Text} (hpath : Spaceless path)
    (h : component ∈ components path) : Spaceless component :=
  fun c hc => hpath c (mem_of_mem_component h hc)

theorem keepsDots_escape {component : Text} (h : Spaceless component) :
    KeepsDots escape component := by
  have hhere := eq_escape_iff unmarked_here h
  have hparent := eq_escape_iff unmarked_parent h
  exact ⟨by rw [eq_comm, hhere, eq_comm], by rw [eq_comm, hparent, eq_comm]⟩

theorem resolve_map_escape (hpath : Spaceless path) :
    resolve ((components path).map escape) = (resolve (components path)).map escape :=
  resolve_map (fun _ hcomponent => keepsDots_escape (spaceless_of_mem hpath hcomponent))

variable {cwd : AbsolutePath}

theorem steps_map_escape (hcwd : Unmarked cwd.text) (hpath : Spaceless path) :
    steps (resolve (components cwd.text)) ((resolve (components path)).map escape) =
      (way cwd path).map escape := by
  refine steps_map _ rfl ?_
  intro d hd t ht
  have hunmarked : Unmarked d := by
    intro c hc
    exact hcwd c (mem_of_mem_component (mem_resolve hd).1 hc)
  exact eq_escape_iff hunmarked (spaceless_of_mem hpath (mem_resolve ht).1)

/-- Making an escaped path relative is the same as escaping the relative path. -/
theorem relativeTo_escape (hcwd : Unmarked cwd.text) (hpath : Spaceless path)
    (habs : isAbsolute path = true) : relativeTo cwd (escape path) = escape (relativeTo cwd path) := by
  have hway : way cwd (escape path) = (way cwd path).map escape := by
    rw [way, components_escape, resolve_map_escape hpath, steps_map_escape hcwd hpath]
  have habs' : isAbsolute (escape path) = true := by rwa [isAbsolute_escape]
  rw [relativeTo_eq cwd habs', relativeTo_eq cwd habs, hway]
  simp only [List.map_eq_nil_iff]
  split
  · rfl
  · exact join_map_escape _

/-! ## The last component -/

/-- An absolute path has a last separator. -/
theorem exists_lastSlash (habs : isAbsolute path = true) :
    ∃ dir name, path = dir ++ '/' :: name ∧ '/' ∉ name := by
  rcases isAbsolute_iff.1 habs with ⟨tail, rfl⟩
  have hslash : '/' ∈ ('/' :: tail).reverse := by simp
  -- The last separator is the first one from the other end.
  rcases List.eq_append_cons_of_mem hslash with ⟨name, dir, heq, hname⟩
  have hpath : '/' :: tail = dir.reverse ++ '/' :: name.reverse := by
    simpa using congrArg List.reverse heq
  exact ⟨dir.reverse, name.reverse, hpath, by simpa using hname⟩

/-- An absolute path that does not end with a separator ends with a name. -/
theorem exists_name (habs : isAbsolute path = true) (hlast : path.getLast? ≠ some '/') :
    ∃ dir name, path = dir ++ '/' :: name ∧ IsComponent name := by
  rcases exists_lastSlash habs with ⟨dir, name, rfl, hname⟩
  refine ⟨dir, name, rfl, ?_, hname⟩
  rintro rfl
  simp at hlast

end Depfile.Path
