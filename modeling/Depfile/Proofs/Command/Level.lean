import Depfile.Command.Arguments

/-!
# Arguments one by one

An argument changes a level of arguments, or it is refused. The flag for a dry run is examined at
once and leaves nothing else behind: any other argument has nothing to do with whether the flag has
been given (`Blind.pushArgument`), and it makes no difference whether what is pending is examined
before the argument or because of it (`pushArgument_settled`).

* `Examines`: the items that can be examined, and what becomes of the level;
* `Ignores`, `Blind`: operations that have nothing to do with the flag.
-/

namespace Depfile.Command

theorem exists_of_bind_eq_ok {ε α β : Type} {action : Except ε α} {next : α → Except ε β} {b : β}
    (h : action >>= next = .ok b) : ∃ a, action = .ok a ∧ next a = .ok b := by
  cases action with
  | error e => cases h
  | ok a => exact ⟨a, rfl, h⟩

/-- The flag that asks for a dry run. -/
def dryRunFlag : Text :=
  ['-', '-', 'd', 'r', 'y', '-', 'r', 'u', 'n']

namespace Level

variable {level next settled : Level} {item : Item}

/-- The level as if the flag for a dry run had been given too. -/
def withDryRun (level : Level) : Level :=
  { level with dryRun := true }

/-! ## Examining -/

/-- An item that is examined at a level, and the level after it. -/
inductive Examines : Level → Item → Level → Prop
  | config {level : Level} {text : Text} : text ≠ [] → level.options.config = none →
      Examines level (.value .config text)
        { level with options := { level.options with config := some text } }
  | baseDir {level : Level} {text : Text} : level.options.baseDir = none →
      Examines level (.value .baseDir text)
        { level with options := { level.options with baseDir := some text } }
  | dryRun {level : Level} : level.dryRun = false → Examines level .dryRun level.withDryRun
  | name {level : Level} {text : Text} : level.scheme = .task .escape →
      Examines level (.positional text)
        { level with positionals := level.positionals ++ [text] }
  | depfile {level : Level} {text : Text} : level.scheme ≠ .task .escape → text ≠ [] →
      level.positionals = [] →
      Examines level (.positional text) { level with positionals := [text] }

theorem examine_eq_ok_iff :
    level.examine item = .ok next ↔ Examines level item next := by
  constructor
  · intro h
    unfold examine at h
    split at h <;> split at h
    · cases h
    · rename_i hgood
      cases h
      exact .config (by simp_all) (by simp_all)
    · cases h
    · rename_i hgood
      cases h
      exact .baseDir (by simpa using hgood)
    · cases h
    · rename_i hgood
      cases h
      exact .dryRun (by simpa using hgood)
    · rename_i hscheme
      cases h
      exact .name hscheme
    · rename_i hscheme
      split at h
      · cases h
      · rename_i hgood
        cases h
        exact .depfile hscheme (by simp_all) (by simp_all)
  · intro h
    cases h with
    | config htext hconfig => simp [examine, htext, hconfig]
    | baseDir hbaseDir => simp [examine, hbaseDir]
    | dryRun hdryRun => simp [examine, hdryRun, withDryRun]
    | name hscheme => simp [examine, hscheme]
    | depfile hscheme htext hpositionals => simp [examine, hscheme, htext, hpositionals]

namespace Examines

theorem keeps (h : Examines level item next) :
    next.scheme = level.scheme ∧ next.pending = level.pending ∧
      next.awaiting = level.awaiting := by
  cases h <;> exact ⟨rfl, rfl, rfl⟩

theorem dryRun_eq (h : Examines level item next) (hitem : item ≠ .dryRun) :
    next.dryRun = level.dryRun := by
  cases h with
  | dryRun => exact absurd rfl hitem
  | config | baseDir | name | depfile => rfl

end Examines

theorem examine_withDryRun (hitem : item ≠ .dryRun) (level : Level) :
    level.withDryRun.examine item = (level.examine item).map withDryRun := by
  cases item with
  | dryRun => exact absurd rfl hitem
  | value name text =>
    cases name <;> simp only [examine, apply_ite (Except.map withDryRun)] <;> rfl
  | positional text =>
    simp only [examine, apply_ite (Except.map withDryRun)]
    rfl

/-- A level settles by examining what is pending. -/
theorem settle_eq_ok_iff :
    level.settle = .ok settled ↔ level.awaiting = none ∧
      ((level.pending = none ∧ settled = level) ∨
        ∃ item, level.pending = some item ∧
          Examines { level with pending := none } item settled) := by
  unfold settle
  cases hawaiting : level.awaiting with
  | some name => simp
  | none =>
    cases hpending : level.pending with
    | none => simp [eq_comm]
    | some item => simp [examine_eq_ok_iff]

/-! ## Operations that have nothing to do with the flag -/

/-- An operation at a level leaves alone whether the flag has been given, and it would have done
the same if the flag had been given. -/
structure Ignores (operation : Level → Except Refusal Level) (level : Level) : Prop where
  withDryRun : operation level.withDryRun = (operation level).map Level.withDryRun
  keeps : ∀ {next}, operation level = .ok next →
    next.scheme = level.scheme ∧ next.dryRun = level.dryRun ∧ next.pending ≠ some .dryRun

namespace Ignores

variable {operation branch : Level → Except Refusal Level}

/-- What an operation does may depend on what the flag does not change. -/
theorem congr (h : Ignores branch level) (hplain : operation level = branch level)
    (hflagged : operation level.withDryRun = branch level.withDryRun) :
    Ignores operation level where
  withDryRun := by rw [hflagged, hplain, h.withDryRun]
  keeps := by
    intro next hnext
    exact h.keeps (hplain.symm.trans hnext)

theorem exists_of_withDryRun (h : Ignores operation level)
    (hnext : operation level.withDryRun = .ok next) :
    ∃ plain, operation level = .ok plain ∧ next = plain.withDryRun := by
  rw [h.withDryRun] at hnext
  cases hplain : operation level with
  | error refusal =>
    rw [hplain] at hnext
    cases hnext
  | ok plain =>
    rw [hplain] at hnext
    cases hnext
    exact ⟨plain, rfl, rfl⟩

end Ignores

/-- An operation ignores the flag at all levels. The flag itself is never pending. -/
def Blind (operation : Level → Except Refusal Level) : Prop :=
  ∀ level, level.pending ≠ some .dryRun → Ignores operation level

namespace Blind

variable {operation other : Level → Except Refusal Level}

theorem error (refusal : Refusal) : Blind (fun _ => .error refusal) := by
  intro level hpending
  exact ⟨rfl, by rintro next ⟨⟩⟩

theorem ok : Blind (fun level => .ok level) := by
  intro level hpending
  refine ⟨rfl, ?_⟩
  rintro next ⟨⟩
  exact ⟨rfl, rfl, hpending⟩

theorem bind (h : Blind operation) (hother : Blind other) :
    Blind (fun level => operation level >>= other) := by
  intro level hpending
  have hfirst := h level hpending
  cases hbetween : operation level with
  | error refusal =>
    refine ⟨by simp only [hfirst.withDryRun, hbetween]; rfl, fun hnext => ?_⟩
    rw [hbetween] at hnext
    cases hnext
  | ok between =>
    rcases hfirst.keeps hbetween with ⟨hscheme, hdry, hpending'⟩
    have hsecond := hother between hpending'
    constructor
    · simp only [hfirst.withDryRun, hbetween]
      exact hsecond.withDryRun
    · intro next hnext
      rw [hbetween] at hnext
      rcases hsecond.keeps hnext with ⟨hscheme', hdry', hpending''⟩
      exact ⟨hscheme'.trans hscheme, hdry'.trans hdry, hpending''⟩

theorem examine (hitem : item ≠ .dryRun) : Blind (fun level => level.examine item) := by
  intro level hpending
  refine ⟨examine_withDryRun hitem level, fun hnext => ?_⟩
  have hexamines := examine_eq_ok_iff.1 hnext
  rcases hexamines.keeps with ⟨hscheme, hsame, _⟩
  exact ⟨hscheme, hexamines.dryRun_eq hitem, by rw [hsame]; exact hpending⟩

theorem settle : Blind Level.settle := by
  intro level hpending
  cases hawaiting : level.awaiting with
  | some name =>
    exact (error .usage level hpending).congr (by simp [Level.settle, hawaiting])
      (by simp [Level.settle, Level.withDryRun, hawaiting])
  | none =>
    cases hitem : level.pending with
    | none =>
      exact (ok level hpending).congr (by simp [Level.settle, hawaiting, hitem])
        (by simp [Level.settle, Level.withDryRun, hawaiting, hitem])
    | some item =>
      have hne : item ≠ .dryRun := by simpa [hitem] using hpending
      have hexamine := examine hne { level with pending := none } (by simp)
      -- Nothing else is asked about the level than about one where nothing is pending.
      have hplain : level.settle = Level.examine { level with pending := none } item := by
        simp [Level.settle, hawaiting, hitem]
      have hflagged : level.withDryRun.settle =
          Level.examine (Level.withDryRun { level with pending := none }) item := by
        simp [Level.settle, Level.withDryRun, hawaiting, hitem]
      refine ⟨by rw [hflagged, hplain, hexamine.withDryRun], fun hnext => ?_⟩
      exact hexamine.keeps (hplain.symm.trans hnext)

theorem take (hitem : item ≠ .dryRun) : Blind (Level.take item) :=
  settle.bind (examine hitem)

theorem pending (hitem : item ≠ .dryRun) :
    Blind (fun level => .ok { level with pending := some item }) := by
  intro level hpending
  refine ⟨rfl, ?_⟩
  rintro next ⟨⟩
  exact ⟨rfl, rfl, by simpa using hitem⟩

theorem awaiting (name : ValueName) :
    Blind (fun level => .ok { level with awaiting := some name }) := by
  intro level hpending
  refine ⟨rfl, ?_⟩
  rintro next ⟨⟩
  exact ⟨rfl, rfl, hpending⟩

theorem push (hitem : item ≠ .dryRun) : Blind (Level.push item) :=
  settle.bind (pending hitem)

theorem requestHelp : Blind Level.requestHelp :=
  settle.bind (error .help)

end Blind

/-- Has the only place for a positional argument been taken? -/
def isTaken (level : Level) : Bool :=
  match level.pending with
  | some (.positional _) => true
  | _ => !level.positionals.isEmpty

theorem pushPositional_eq (text : Text) (level : Level) :
    level.pushPositional text =
      match level.scheme with
      | .root => .error .usage
      | .task name =>
        if level.isTaken && name ≠ .escape then .error .usage else level.push (.positional text) :=
  rfl

theorem pushLong_of_none {name : Text} {attached : Option Text}
    (hname : ValueName.ofText? name = none) (hattached : ¬attached.isSome = true) (level : Level) :
    level.pushLong name attached =
      if name = "help".toList then level.requestHelp
      else if name = "version".toList ∧ level.scheme = .root then level.requestHelp
      else if name = "dry-run".toList ∧ level.scheme = .task .revise then level.take .dryRun
      else .error .usage := by
  rw [pushLong, hname]
  exact if_neg hattached

theorem eq_of_splitOption_eq {option name : Text} (h : splitOption option = (name, none)) :
    option = name := by
  have happend : option.takeWhile (fun c => c ≠ '=') ++ option.dropWhile (fun c => c ≠ '=') =
      option := List.takeWhile_append_dropWhile
  unfold splitOption at h
  split at h
  · cases h
  · rename_i hdrop
    cases h
    rw [hdrop, List.append_nil] at happend
    exact happend.symm

namespace Blind

theorem pushPositional (text : Text) : Blind (Level.pushPositional text) := by
  intro level hpending
  have hscheme : level.withDryRun.scheme = level.scheme := rfl
  have htaken : level.withDryRun.isTaken = level.isTaken := rfl
  cases htask : level.scheme with
  | root =>
    exact (error .usage level hpending).congr (by simp [pushPositional_eq, htask])
      (by simp [pushPositional_eq, hscheme, htask])
  | task name =>
    by_cases hrefused : (level.isTaken && name ≠ .escape) = true
    · refine (error .usage level hpending).congr ?_ ?_
      · simp only [pushPositional_eq, htask, hrefused, if_true]
      · simp only [pushPositional_eq, hscheme, htaken, htask, hrefused, if_true]
    · have hitem : Item.positional text ≠ .dryRun := by simp
      refine (push hitem level hpending).congr ?_ ?_
      · simp only [pushPositional_eq, htask, hrefused, if_false, Bool.false_eq_true]
      · simp only [pushPositional_eq, hscheme, htaken, htask, hrefused, if_false,
          Bool.false_eq_true]

theorem pushLong {name : Text} {attached : Option Text}
    (hflag : ¬(name = "dry-run".toList ∧ attached = none)) :
    Blind (Level.pushLong name attached) := by
  intro level hpending
  cases hvalue : ValueName.ofText? name with
  | some value =>
    cases attached with
    | some text =>
      have hitem : Item.value value text ≠ .dryRun := by simp
      exact (take hitem level hpending).congr (by simp [Level.pushLong, hvalue])
        (by simp [Level.pushLong, hvalue])
    | none =>
      exact (settle.bind (awaiting value) level hpending).congr
        (by simp [Level.pushLong, hvalue]; rfl) (by simp [Level.pushLong, hvalue]; rfl)
  | none =>
    by_cases hattached : attached.isSome = true
    · exact (error .usage level hpending).congr (by simp [Level.pushLong, hvalue, hattached])
        (by simp [Level.pushLong, hvalue, hattached])
    have hname : name ≠ "dry-run".toList := fun hname => hflag ⟨hname, by simpa using hattached⟩
    have hlong := pushLong_of_none hvalue hattached
    by_cases hhelp : name = "help".toList
    · exact (requestHelp level hpending).congr (by rw [hlong, if_pos hhelp])
        (by rw [hlong, if_pos hhelp])
    by_cases hversion : name = "version".toList ∧ level.scheme = .root
    · exact (requestHelp level hpending).congr
        (by rw [hlong, if_neg hhelp, if_pos hversion])
        (by rw [hlong, if_neg hhelp, if_pos ⟨hversion.1, hversion.2⟩])
    · exact (error .usage level hpending).congr
        (by rw [hlong, if_neg hhelp, if_neg hversion, if_neg (fun h => hname h.1)])
        (by rw [hlong, if_neg hhelp, if_neg (fun h => hversion ⟨h.1, h.2⟩),
          if_neg (fun h => hname h.1)])

theorem pushShort (letter : Char) : Blind (Level.pushShort letter) := by
  intro level hpending
  by_cases hhelp : letter = 'h'
  · exact (requestHelp level hpending).congr (if_pos hhelp) (if_pos hhelp)
  by_cases hversion : letter = 'V' ∧ level.scheme = .root
  · exact (requestHelp level hpending).congr
      (by rw [Level.pushShort, if_neg hhelp, if_pos hversion])
      (by rw [Level.pushShort, if_neg hhelp, if_pos ⟨hversion.1, hversion.2⟩])
  · exact (error .usage level hpending).congr
      (by rw [Level.pushShort, if_neg hhelp, if_neg hversion])
      (by rw [Level.pushShort, if_neg hhelp, if_neg (fun h => hversion ⟨h.1, h.2⟩)])

theorem pushPlain (text : Text) : Blind (Level.pushPlain text) := by
  intro level hpending
  cases hawaiting : level.awaiting with
  | some name =>
    constructor
    · simp [Level.pushPlain, Level.withDryRun, hawaiting, Except.map]
    · intro next hnext
      rw [Level.pushPlain, hawaiting] at hnext
      cases hnext
      exact ⟨rfl, rfl, by simp⟩
  | none =>
    exact (pushPositional text level hpending).congr (by simp [Level.pushPlain, hawaiting])
      (by simp [Level.pushPlain, Level.withDryRun, hawaiting])

/-- No argument but the flag has to do with the flag. -/
theorem pushArgument {text : Text} (hflag : text ≠ dryRunFlag) :
    Blind (fun level => level.pushArgument text) := by
  unfold Level.pushArgument
  split
  · rename_i option
    refine pushLong ?_
    rintro ⟨hname, hattached⟩
    have hoption : option = "dry-run".toList := eq_of_splitOption_eq (Prod.ext hname hattached)
    have hsame : "dry-run".toList = ['d', 'r', 'y', '-', 'r', 'u', 'n'] := by decide +kernel
    exact hflag (by rw [hoption, hsame, dryRunFlag])
  · exact pushShort _
  · exact pushPlain _

theorem foldlM_pushPositional (texts : List Text) :
    Blind (fun level => texts.foldlM (fun level text => level.pushPositional text) level) := by
  induction texts with
  | nil => exact ok
  | cons text texts ih => simpa using (pushPositional text).bind ih

end Blind

/-! ## Settled levels -/

/-- Nothing is pending after settling, and no option waits for its value. -/
theorem settled_of_settle (h : level.settle = .ok settled) :
    settled.pending = none ∧ settled.awaiting = none := by
  rcases settle_eq_ok_iff.1 h with ⟨hawaiting, ⟨hpending, rfl⟩ | ⟨item, _, hexamines⟩⟩
  · exact ⟨hpending, hawaiting⟩
  · rcases hexamines.keeps with ⟨_, hpending, hawaiting'⟩
    exact ⟨hpending, hawaiting'.trans hawaiting⟩

theorem settle_of_settled (h : level.settle = .ok settled) : settled.settle = .ok settled := by
  rcases settled_of_settle h with ⟨hpending, hawaiting⟩
  exact settle_eq_ok_iff.2 ⟨hawaiting, .inl ⟨hpending, rfl⟩⟩

/-- A pending positional argument takes its place before it is examined. -/
theorem isTaken_settled (h : level.settle = .ok settled) (hne : level.scheme ≠ .task .escape) :
    settled.isTaken = level.isTaken := by
  rcases settle_eq_ok_iff.1 h with ⟨_, ⟨_, rfl⟩ | ⟨item, hpending, hexamines⟩⟩
  · rfl
  · cases hexamines with
    | config _ _ => simp [isTaken, hpending]
    | baseDir _ => simp [isTaken, hpending]
    | dryRun _ => simp [isTaken, hpending, withDryRun]
    | name hscheme => exact absurd hscheme hne
    | depfile _ _ _ => simp [isTaken, hpending]

section

variable (h : level.settle = .ok settled)

include h

theorem scheme_settled : settled.scheme = level.scheme := by
  rcases settle_eq_ok_iff.1 h with ⟨_, ⟨_, rfl⟩ | ⟨item, _, hexamines⟩⟩
  · rfl
  · exact hexamines.keeps.1

theorem take_settled (item : Item) : settled.take item = level.take item := by
  rw [take, take, h, settle_of_settled h]

theorem push_settled (item : Item) : settled.push item = level.push item := by
  rw [push, push, h, settle_of_settled h]

theorem requestHelp_settled : settled.requestHelp = level.requestHelp := by
  rw [requestHelp, requestHelp, h, settle_of_settled h]

theorem pushPositional_settled (text : Text) :
    settled.pushPositional text = level.pushPositional text := by
  rw [pushPositional_eq, pushPositional_eq, scheme_settled h, push_settled h]
  cases hscheme : level.scheme with
  | root => rfl
  | task name =>
    by_cases hescape : name = .escape
    · simp [hescape]
    · have htaken := isTaken_settled h (by simpa [hscheme] using hescape)
      simp [htaken]

theorem pushLong_settled (name : Text) (attached : Option Text) :
    settled.pushLong name attached = level.pushLong name attached := by
  cases hvalue : ValueName.ofText? name with
  | some value =>
    cases attached with
    | some text => simpa [pushLong, hvalue] using take_settled h (.value value text)
    | none => simp [pushLong, hvalue, h, settle_of_settled h]
  | none =>
    by_cases hattached : attached.isSome = true
    · simp [pushLong, hvalue, hattached]
    · rw [pushLong_of_none hvalue hattached, pushLong_of_none hvalue hattached,
        scheme_settled h, requestHelp_settled h, take_settled h]

/-- Whatever comes next, a level settles before it takes anything in. -/
theorem pushArgument_settled (text : Text) : settled.pushArgument text = level.pushArgument text := by
  unfold pushArgument
  split
  · exact pushLong_settled h _ _
  · rw [pushShort, pushShort, scheme_settled h, requestHelp_settled h]
  · have hawaiting := (settle_eq_ok_iff.1 h).1
    have hawaiting' := (settled_of_settle h).2
    simpa [pushPlain, hawaiting, hawaiting'] using pushPositional_settled h _

end

end Level

/-! ## The flag -/

variable {level next : Level} {text : Text}

/-- Only the task that revises a file knows the flag, and it examines it at once. -/
theorem pushArgument_dryRunFlag (level : Level) :
    level.pushArgument dryRunFlag =
      if level.scheme = .task .revise then level.take .dryRun else .error .usage := by
  have hname : ValueName.ofText? ['d', 'r', 'y', '-', 'r', 'u', 'n'] = none := by decide +kernel
  have hhelp : ['d', 'r', 'y', '-', 'r', 'u', 'n'] ≠ "help".toList := by decide +kernel
  have hversion : ['d', 'r', 'y', '-', 'r', 'u', 'n'] ≠ "version".toList := by decide +kernel
  have hflag : ['d', 'r', 'y', '-', 'r', 'u', 'n'] = "dry-run".toList := by decide +kernel
  have hpush : level.pushArgument dryRunFlag =
      level.pushLong ['d', 'r', 'y', '-', 'r', 'u', 'n'] none := rfl
  rw [hpush, Level.pushLong_of_none hname (by simp), if_neg hhelp,
    if_neg (fun h => hversion h.1)]
  by_cases hscheme : level.scheme = .task .revise
  · rw [if_pos ⟨hflag, hscheme⟩, if_pos hscheme]
  · rw [if_neg (fun h => hscheme h.2), if_neg hscheme]

theorem exists_of_pushArgument_dryRunFlag (h : level.pushArgument dryRunFlag = .ok next) :
    ∃ settled, level.settle = .ok settled ∧ settled.dryRun = false ∧
      next = settled.withDryRun := by
  rw [pushArgument_dryRunFlag] at h
  split at h
  · rcases exists_of_bind_eq_ok h with ⟨settled, hsettled, hexamine⟩
    cases Level.examine_eq_ok_iff.1 hexamine with
    | dryRun hdry => exact ⟨settled, hsettled, hdry, rfl⟩
  · cases h

/-- Only the flag may change whether it has been given, and then it has been. -/
theorem keeps_pushArgument (hpending : level.pending ≠ some .dryRun)
    (h : level.pushArgument text = .ok next) :
    next.scheme = level.scheme ∧ next.pending ≠ some .dryRun ∧
      (level.dryRun = true → next.dryRun = true) := by
  by_cases hflag : text = dryRunFlag
  · subst hflag
    rcases exists_of_pushArgument_dryRunFlag h with ⟨settled, hsettled, _, rfl⟩
    rcases (Level.Blind.settle level hpending).keeps hsettled with ⟨hscheme, _, hpending'⟩
    exact ⟨hscheme, hpending', fun _ => rfl⟩
  · rcases (Level.Blind.pushArgument hflag level hpending).keeps h with ⟨hscheme, hdry, hpending'⟩
    exact ⟨hscheme, hpending', hdry.trans⟩

end Depfile.Command
