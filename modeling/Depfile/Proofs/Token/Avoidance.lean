import Depfile.Proofs.Path.Under
import Depfile.Proofs.Token.Content
import Depfile.Proofs.Token.Names

/-!
# Texts whose prerequisites avoid a directory

What the scanner reads piece by piece, it reads here under one question: is any prerequisite that it
gives out under a given directory? A name is collected and does no harm until it is given out
(`avoids_escape`), whitespace gives it out (`avoids_space`), and with a colon it is no prerequisite
any more (`avoids_colon`). None of this asks what comes next. In particular whitespace may have a
colon behind it, which makes the token in front a target.
-/

namespace Depfile.Token

variable {dir pending rest name : Text} {c : Char}

/-- No prerequisite that is given out is under the directory. -/
def Avoids (dir pending text : Text) : Prop :=
  ∀ token ∈ prerequisites (scan pending .plain text), Path.isUnder token dir = false

/-! ## Prerequisites -/

theorem prerequisites_append (front back : List Text) :
    prerequisites (front ++ back) = prerequisites front ++ prerequisites back := by
  simp [prerequisites]

theorem prerequisites_emit_colon (pending : Text) : prerequisites (emit (':' :: pending)) = [] := by
  rw [emit_colon]
  simp [prerequisites, isTarget]

theorem of_mem_prerequisites_emit {token : Text} (h : token ∈ prerequisites (emit pending)) :
    token = pending.reverse :=
  (mem_emit.1 (List.mem_filter.1 h).1).2

theorem isUnder_nil (dir : Text) : Path.isUnder [] dir = false := rfl

/-! ## Reading on -/

theorem avoids_nil_nil (dir : Text) : Avoids dir [] [] := by
  simp [Avoids, scan, emit_nil, prerequisites]

/-- Whitespace gives out what has been collected, as a prerequisite or as a target. -/
theorem avoids_space (hc : Text.isSpace c = true) (hpending : Path.isUnder pending.reverse dir = false)
    (hrest : Avoids dir [] rest) : Avoids dir pending (c :: rest) := by
  by_cases hblank : Text.isBlank pending = true
  · rwa [Avoids, scan_space_of_isBlank hc hblank]
  by_cases hcolon : colonFollows rest = true
  · have hscan := scan_space_of_colonFollows hc (by simpa using hblank) hcolon
    rw [scan_ending_eq hcolon] at hscan
    rw [Avoids, hscan, prerequisites_append, prerequisites_emit_colon]
    exact hrest
  · rw [Avoids, scan_space pending hc (by simpa using hcolon), prerequisites_append]
    intro token htoken
    rcases List.mem_append.1 htoken with htoken | htoken
    · rwa [of_mem_prerequisites_emit htoken]
    · exact hrest token htoken

theorem avoids_spaces {run : Text} (hrun : ∀ c ∈ run, Text.isSpace c = true)
    (hrest : Avoids dir [] rest) : Avoids dir [] (run ++ rest) := by
  induction run with
  | nil => exact hrest
  | cons c run ih =>
    have hothers := ih (fun d hd => hrun d (by simp [hd]))
    exact avoids_space (hrun c (by simp)) (isUnder_nil dir) hothers

theorem avoids_gap (gap : Gap isSpaceOrTab) (hpending : Path.isUnder pending.reverse dir = false)
    (hrest : Avoids dir [] rest) : Avoids dir pending (gap.text ++ rest) := by
  have hspaces : ∀ run : Run isSpaceOrTab, ∀ c ∈ run.text, Text.isSpace c = true :=
    fun run c hc => isSpace_of_isSpaceOrTab (run.of_kind c hc)
  rcases List.exists_cons_of_ne_nil gap.blanks_ne_nil with ⟨c, blanks, hblanks⟩
  have hrun := hspaces gap.blanks
  rw [hblanks] at hrun
  have hothers : ∀ d ∈ blanks, Text.isSpace d = true := fun d hd => hrun d (by simp [hd])
  cases hcontinuation : gap.continuation with
  | none =>
    have hgap := avoids_space (hrun c (by simp)) hpending (avoids_spaces hothers hrest)
    simpa [Gap.text, hblanks, hcontinuation] using hgap
  | some more =>
    -- The backslash disappears, and the line feed is whitespace like the rest.
    have hline : Avoids dir [] ('\\' :: '\n' :: (more.text ++ rest)) := by
      rw [Avoids, scan_continuation]
      exact avoids_space rfl (isUnder_nil dir) (avoids_spaces (hspaces more) hrest)
    have hgap := avoids_space (hrun c (by simp)) hpending (avoids_spaces hothers hline)
    simpa [Gap.text, hblanks, hcontinuation] using hgap

theorem avoids_escape (hname : ∀ c ∈ name, CanEscape c)
    (h : Avoids dir (name.reverse ++ pending) rest) : Avoids dir pending (escape name ++ rest) := by
  rwa [Avoids, scan_escape pending rest hname]

theorem avoids_protected (hc : isProtected c = true) (h : Avoids dir (c :: pending) rest) :
    Avoids dir pending ('\\' :: c :: rest) := by
  rwa [Avoids, scan_protected pending rest hc]

/-- A token that has got its colon is no prerequisite. -/
theorem avoids_colon (hslash : slashFollows rest = false) (hrest : Avoids dir [] rest) :
    Avoids dir pending (':' :: rest) := by
  by_cases hblank : Text.isBlank pending = true
  · rwa [Avoids, scan_colon_of_isBlank hblank]
  · rw [Avoids, scan_colon (by simpa using hblank) hslash, prerequisites_append,
      prerequisites_emit_colon]
    exact hrest

/-! ## Harmless beginnings -/

/-- Nothing has been collected yet, or nothing that could still get under the directory. -/
def Harmless (dir pending : Text) : Prop :=
  pending = [] ∨ ∀ more, Path.isUnder (pending.reverse ++ more) dir = false

theorem harmless_nil (dir : Text) : Harmless dir [] :=
  Or.inl rfl

theorem Harmless.append (h : Harmless dir pending)
    (hname : ∀ more, Path.isUnder (name ++ more) dir = false) :
    Harmless dir (name.reverse ++ pending) := by
  refine Or.inr (fun more => ?_)
  rcases h with rfl | h
  · simpa using hname more
  · simpa using h (name ++ more)

theorem Harmless.isUnder_append (h : Harmless dir pending) (hname : Path.isUnder name dir = false) :
    Path.isUnder (name.reverse ++ pending).reverse dir = false := by
  rcases h with rfl | h
  · simpa using hname
  · simpa using h name

end Depfile.Token
