import Depfile.Proofs.Path.Escaped
import Depfile.Proofs.Path.Way

/-!
# Escaped paths that are cut off

A path with spaces is several words when it is escaped, and only the first of them is made relative.
That word ends with the backslash of an escape, and a target ends with a colon: the last component
of such a word carries a mark, so it is no component of a directory without marks, and the way ends
with it. Whatever is put behind it again, the whole leads to the file that it led to before.

Unlike in a directory without any marks, number signs in the directory are possible here, so that
escaping need not commute with making a path relative: the two paths can have a component in common
that the escaped path does not share.

* `exists_relativeTo_escape`, `exists_relativeTo_escape_mark`: relative forms without and with a
  mark at the end, both escaped again;
* `Leads.normalize_join`: what a walk with a path behind it names.
-/

namespace Depfile.Path

open Token

/-- A text in which no escape begins and no target ends. -/
def EscapeFree (text : Text) : Prop :=
  ∀ c ∈ text, c ≠ '\\' ∧ c ≠ '$' ∧ c ≠ ':'

instance (text : Text) : Decidable (EscapeFree text) :=
  List.decidableBAll _ text

theorem escapeFree_of_unmarked {text : Text} (h : Unmarked text) : EscapeFree text := by
  intro c hc
  have hmark := h c hc
  simp only [IsMark, not_or] at hmark
  exact ⟨hmark.1, hmark.2.2.1, hmark.2.2.2⟩

theorem escape_eq_self {name : Text} (h : EscapeFree (escape name)) : escape name = name := by
  induction name with
  | nil => rfl
  | cons c name ih =>
    have hrest : EscapeFree (escape name) := by
      intro d hd
      exact h d (by simp [escape_cons, hd])
    have hc : escapeChar c = [c] := by
      rcases escapeChar_cases c with ⟨_, hwritten⟩ | ⟨_, hwritten⟩ | ⟨_, _, hwritten⟩
      · exact absurd rfl (h '$' (by simp [escape_cons, hwritten])).2.1
      · exact absurd rfl (h '\\' (by simp [escape_cons, hwritten])).1
      · exact hwritten
    rw [escape_cons, hc, ih hrest]
    rfl

/-! ## Walks that lead to a path -/

/-- From the working directory the walk leads to what the path names, and it is made of characters
of the path and dots. -/
structure Leads (cwd : AbsolutePath) (walk : List Text) (path : Text) : Prop where
  resolve_eq : resolve (components cwd.text ++ walk) = resolve (components path)
  isComponent : ∀ step ∈ walk, IsComponent step
  mem_path : ∀ step ∈ walk, ∀ c ∈ step, c = '.' ∨ c ∈ path

variable {cwd : AbsolutePath} {path dir name : Text}

/-- Whatever is resolved like the walk names the same file. -/
theorem Leads.normalize_eq {walk : List Text} {new : Text} (h : Leads cwd walk path)
    (habs : isAbsolute path = true)
    (hnew : resolve (components cwd.text ++ components new) =
      resolve (components cwd.text ++ walk)) :
    normalize (cwd.text ++ '/' :: new) = normalize path := by
  rw [normalize_eq_iff (cwd.isAbsolute_below _) habs, components_append_slash]
  exact hnew.trans h.resolve_eq

/-- What an escape-free directory shares with an escaped path is written without escapes. -/
theorem exists_steps_map_escape (hcwd : EscapeFree cwd.text) (path : Text) :
    ∃ walk, steps (resolve (components cwd.text)) ((resolve (components path)).map escape) =
        walk.map escape ∧
      Leads cwd walk path := by
  rcases exists_steps_eq (resolve (components cwd.text)) ((resolve (components path)).map escape)
    with ⟨common, up, down, hdir, htarget, hsteps⟩
  rcases List.map_eq_append_iff.1 htarget with ⟨front, back, hpath, hfront, hback⟩
  have hcommon : common = front := by
    have hfree : ∀ name ∈ front, escape name = name := by
      intro name hname
      refine escape_eq_self (fun c hc => ?_)
      have hmem : escape name ∈ resolve (components cwd.text) := by
        rw [hdir, ← hfront]
        exact List.mem_append_left _ (List.mem_map_of_mem hname)
      exact hcwd c (mem_of_mem_component (mem_resolve hmem).1 hc)
    calc
      common = front.map escape := hfront.symm
      _ = front.map id := List.map_congr_left hfree
      _ = front := List.map_id front
  have hback' : ∀ name ∈ back, name ∈ resolve (components path) := by
    intro name hname
    rw [hpath]
    exact List.mem_append_right front hname
  have hparent : escape parent = parent := rfl
  refine ⟨List.replicate up.length parent ++ back, ?_, ?_, ?_, ?_⟩
  · rw [hsteps, ← hback]
    simp [hparent]
  · rw [hpath, ← hcommon]
    exact resolve_append_upDown hdir (fun name hname => isName_of_mem_resolve (hback' name hname))
  · intro step hstep
    rcases List.mem_append.1 hstep with hup | hdown
    · rw [List.eq_of_mem_replicate hup]
      exact isComponent_parent
    · exact (isName_of_mem_resolve (hback' step hdown)).isComponent
  · intro step hstep c hc
    rcases List.mem_append.1 hstep with hup | hdown
    · rw [List.eq_of_mem_replicate hup] at hc
      exact Or.inl (by simpa [parent] using hc)
    · exact Or.inr (mem_of_mem_component (mem_resolve (hback' step hdown)).1 hc)

theorem exists_way_escape (hcwd : EscapeFree cwd.text) (hpath : Spaceless path) :
    ∃ walk, way cwd (escape path) = walk.map escape ∧ Leads cwd walk path := by
  rcases exists_steps_map_escape hcwd path with ⟨walk, hsteps, hleads⟩
  refine ⟨walk, ?_, hleads⟩
  rw [way, components_escape, resolve_map_escape hpath, hsteps]

/-- The component with the mark is neither `.` nor `..`, so resolving keeps it. -/
theorem resolve_escape_mark {mark : Char} (hmark : mark = '\\' ∨ mark = ':') (dir : Text)
    (hname : '/' ∉ name) :
    resolve (components (escape (dir ++ '/' :: name) ++ [mark])) =
      resolve (components (escape dir)) ++ [escape name ++ [mark]] := by
  have hslash : mark ≠ '/' ∧ mark ≠ '.' := by
    rcases hmark with rfl | rfl <;> decide
  have hlast : IsComponent (escape name ++ [mark]) := by
    refine ⟨by simp, ?_⟩
    simpa [Ne.symm hslash.1] using slash_notMem_escape hname
  have hdots : escape name ++ [mark] ≠ here ∧ escape name ++ [mark] ≠ parent := by
    constructor <;> (intro h; simpa [here, parent, hslash.2] using congrArg List.getLast? h)
  have hescape : escape (dir ++ '/' :: name) = escape dir ++ '/' :: escape name :=
    escape_append dir ('/' :: name)
  rw [hescape, List.append_assoc, List.cons_append, components_append_slash,
    components_of_isComponent hlast, resolve_append_name _ hdots.1 hdots.2]

/-- No component of the working directory carries a mark. -/
theorem exists_way_escape_mark {mark : Char} (hmark : mark = '\\' ∨ mark = ':')
    (hcwd : EscapeFree cwd.text) (hdir : Spaceless dir) (hname : '/' ∉ name) :
    ∃ walk, way cwd (escape (dir ++ '/' :: name) ++ [mark]) =
        walk.map escape ++ [escape name ++ [mark]] ∧
      Leads cwd walk dir := by
  have hnew : escape name ++ [mark] ∉ resolve (components cwd.text) := by
    intro hmem
    have hfree := hcwd mark (mem_of_mem_component (mem_resolve hmem).1 (by simp))
    rcases hmark with rfl | rfl
    · exact hfree.1 rfl
    · exact hfree.2.2 rfl
  rcases exists_steps_map_escape hcwd dir with ⟨walk, hsteps, hleads⟩
  refine ⟨walk, ?_, hleads⟩
  calc
    way cwd (escape (dir ++ '/' :: name) ++ [mark]) =
        steps (resolve (components cwd.text))
          ((resolve (components dir)).map escape ++ [escape name ++ [mark]]) := by
      rw [way, resolve_escape_mark hmark dir hname, components_escape, resolve_map_escape hdir]
    _ = walk.map escape ++ [escape name ++ [mark]] := by
      rw [steps_append_name _ hnew, hsteps]

/-- The relative form of an escaped path is escaped again, and leads to the same file. -/
theorem exists_relativeTo_escape (hcwd : EscapeFree cwd.text) (hpath : Spaceless path)
    (habs : isAbsolute path = true) :
    ∃ new, relativeTo cwd (escape path) = escape new ∧ new ≠ [] ∧ isAbsolute new = false ∧
      normalize (cwd.text ++ '/' :: new) = normalize path ∧ ∀ c ∈ new, c = '.' ∨ c ∈ path := by
  have habs' : isAbsolute (escape path) = true := by rwa [isAbsolute_escape]
  rcases exists_way_escape hcwd hpath with ⟨walk, hway, hleads⟩
  by_cases hnil : walk = []
  · -- The path names the working directory, so what is written is `.`, which leads nowhere else.
    have hhere : resolve (components cwd.text ++ [here]) =
        resolve (components cwd.text ++ walk) := by
      rw [hnil, resolve_append]
      simp [follow]
    refine ⟨here, ?_, by decide, rfl, hleads.normalize_eq habs hhere, ?_⟩
    · rw [relativeTo_eq cwd habs', hway, hnil]
      rfl
    · intro c hc
      exact Or.inl (by simpa [here] using hc)
  · have hwalk : components (join walk) = walk := components_join hleads.isComponent
    refine ⟨join walk, ?_, join_ne_nil hnil hleads.isComponent, isAbsolute_join hleads.isComponent,
      hleads.normalize_eq habs (by rw [hwalk]), ?_⟩
    · rw [relativeTo_eq cwd habs', hway, if_neg (by simpa using hnil), join_map_escape]
    · intro c hc
      rcases mem_join hc with rfl | ⟨step, hstep, hc⟩
      · rcases isAbsolute_iff.1 habs with ⟨rest, rfl⟩
        exact Or.inr (by simp)
      · exact hleads.mem_path step hstep c hc

/-- The mark stays behind the last component. -/
theorem exists_relativeTo_escape_mark {mark : Char} (hmark : mark = '\\' ∨ mark = ':')
    (hcwd : EscapeFree cwd.text) (hdir : Spaceless dir) (hname : '/' ∉ name)
    (habs : isAbsolute (dir ++ '/' :: name) = true) :
    ∃ walk, relativeTo cwd (escape (dir ++ '/' :: name) ++ [mark]) =
        escape (join (walk ++ [name])) ++ [mark] ∧
      Leads cwd walk dir := by
  have habs' : isAbsolute (escape (dir ++ '/' :: name) ++ [mark]) = true := by
    refine isAbsolute_append ?_ _
    rwa [isAbsolute_escape]
  rcases exists_way_escape_mark hmark hcwd hdir hname with ⟨walk, hway, hleads⟩
  refine ⟨walk, ?_, hleads⟩
  rw [relativeTo_eq cwd habs', hway, if_neg (by simp), join_append_name, ← join_map_escape,
    List.map_append, List.map_singleton]

/-! ## What follows a walk -/

theorem components_join_append {walk : List Text} (h : ∀ step ∈ walk, IsComponent step)
    (rest : Text) : components (join (walk ++ [rest])) = walk ++ components rest := by
  induction walk with
  | nil => simp [join]
  | cons step walk ih =>
    have hstep : components step = [step] := components_of_isComponent (h step (by simp))
    have hrest := ih (fun other hother => h other (by simp [hother]))
    rw [List.cons_append, join_cons_append, components_append_slash, hstep, hrest]
    rfl

namespace Leads

variable {walk : List Text} {rest : Text}

/-- Behind a walk to a directory, a path leads where it leads in the directory. -/
theorem normalize_join (h : Leads cwd walk dir) (habs : isAbsolute (dir ++ '/' :: rest) = true) :
    normalize (cwd.text ++ '/' :: join (walk ++ [rest])) = normalize (dir ++ '/' :: rest) := by
  rw [normalize_eq_iff (cwd.isAbsolute_below _) habs, components_append_slash,
    components_append_slash, components_join_append h.isComponent, ← List.append_assoc]
  exact resolve_append_congr h.resolve_eq (components rest)

theorem isAbsolute_join (h : Leads cwd walk dir) (hrest : isAbsolute rest = false) :
    isAbsolute (join (walk ++ [rest])) = false := by
  cases walk with
  | nil => exact hrest
  | cons step walk =>
    have hstep := h.isComponent step (by simp)
    have hfirst : isAbsolute step = false := isAbsolute_of_notMem hstep.no_slash
    rw [List.cons_append, join_cons_append, isAbsolute_append_of_ne_nil hstep.ne_nil, hfirst]

theorem mem_join (h : Leads cwd walk dir) {c : Char} (hc : c ∈ join (walk ++ [rest])) :
    c = '.' ∨ c ∈ dir ++ '/' :: rest := by
  rcases Path.mem_join hc with rfl | ⟨step, hstep, hc⟩
  · exact Or.inr (by simp)
  · rcases List.mem_append.1 hstep with hstep | hstep
    · rcases h.mem_path step hstep c hc with hdot | hdir
      · exact Or.inl hdot
      · exact Or.inr (by simp [hdir])
    · rw [List.mem_singleton.1 hstep] at hc
      exact Or.inr (by simp [hc])

theorem join_ne_nil (h : Leads cwd walk dir) (hrest : rest ≠ []) : join (walk ++ [rest]) ≠ [] := by
  cases walk with
  | nil => exact hrest
  | cons step walk =>
    have hstep := h.isComponent step (by simp)
    rw [List.cons_append, join_cons_append]
    simp [hstep.ne_nil]

/-- A separator is not blank, so what is blank is in the directory itself. -/
theorem of_isBlank_join (h : Leads cwd walk dir) (hdir : isAbsolute (dir ++ ['/']) = true)
    (hblank : Text.isBlank (join (walk ++ [rest])) = true) :
    Text.isBlank rest = true ∧ normalize (dir ++ ['/']) = normalize cwd.text := by
  cases walk with
  | cons step walk =>
    rw [List.cons_append, join_cons_append] at hblank
    simp [Text.isBlank, Text.isSpace] at hblank
  | nil =>
    have hresolve : resolve (components dir) = resolve (components cwd.text) := by
      simpa using h.resolve_eq.symm
    refine ⟨hblank, ?_⟩
    rw [normalize_eq_iff hdir cwd.isAbsolute, components_append_slash]
    simpa using hresolve

end Leads

/-! ## Targets -/

/-- A target that is made relative is the escaped form of another name with the same colon. -/
theorem exists_relativeTo_escape_colon (hcwd : Unmarked cwd.text) (hpath : Spaceless path)
    (habs : isAbsolute path = true) (hlast : path.getLast? ≠ some '/') :
    ∃ target, relativeTo cwd (escape path ++ [':']) = escape target ++ [':'] ∧
      target ≠ [] ∧ target.getLast? ≠ some '/' ∧ ∀ c ∈ target, c = '.' ∨ c ∈ path := by
  rcases exists_name habs hlast with ⟨dir, name, rfl, hname⟩
  have hdir : Spaceless dir := by
    intro c hc
    exact hpath c (by simp [hc])
  rcases exists_relativeTo_escape_mark (Or.inr rfl) (escapeFree_of_unmarked hcwd) hdir hname.no_slash
    habs with ⟨walk, hrelative, hleads⟩
  exact ⟨join (walk ++ [name]), hrelative, hleads.join_ne_nil hname.ne_nil,
    getLast?_join_ne walk hname, fun _ => hleads.mem_join⟩

end Depfile.Path
