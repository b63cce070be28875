import Peaks.Proofs.VersionLines

/-!
# Files that carry a version

A target is stamped exactly if its file has a version line, and of all files only that one changes.
A number that is stamped can be stamped over, and leaves no trace then. A bump stamps one target
after another and does not look ahead: if the second file has no version line, the first one is
written all the same. So a bump that fails leaves the files apart, unless it found nothing to
change.

- `Version.Files.find?_write` : the files after one was written
- `Version.Declares`          : what a file has on its first version line
- `Version.stamp_eq_ok_iff`, `Version.stamp_rewrites` : one target
- `Version.stampAll_spec`     : one target after another, up to the first without a version line
- `Version.bump_inStep_iff`   : when a bump keeps the files in step
-/

namespace Peaks
namespace Version

variable {files left : Files} {name text : String} {target : Target} {version : String}

/-! ## Files -/

namespace Files

theorem lookup_write (files : Files) (name text other : String) :
    (files.write name text).lookup other =
      if other = name then (files.lookup other).map fun _ => .file text
        else files.lookup other := by
  induction files with
  | nil =>
      simp [write]
  | cons f files ih =>
      have hname : (if f.1 = name then (name, FileEntry.file text) else f).1 = f.1 := by
        split_ifs with hf
        · exact hf.symm
        · rfl
      rw [write, List.map_cons, ← write, List.lookup_cons, List.lookup_cons, ih, hname]
      by_cases hother : other = f.1
      · by_cases hf : f.1 = name <;> simp [hother, hf]
      · have hskip : (other == f.1) = false := by simpa using hother
        simp only [hskip]

/-- A file that is written is there under its name, and no other name is touched. -/
theorem find?_write (h : files.find? name = some (.file text)) (new other : String) :
    (files.write name new).find? other = if other = name then some (.file new)
      else files.find? other := by
  have hnames : ∀ p : String → Bool, ((files.write name new).any fun f => p f.1) = files.any
      fun f => p f.1 := by
    intro p
    rw [write, List.any_map]
    congr 1
    funext f
    by_cases hf : f.1 = name <;> simp [hf]
  have hthere : files.lookup name = some (.file text) := by
    rw [find?] at h
    split at h
    · next found hfound => rw [hfound, h]
    · split at h <;> cases h
  rw [find?, lookup_write, hnames fun f => (other ++ "/").toList.isPrefixOf f.toList]
  by_cases hother : other = name
  · rw [if_pos hother, if_pos hother, hother, hthere]
    rfl
  · rw [if_neg hother, if_neg hother]
    rfl

theorem write_write (files : Files) (name text new : String) :
    (files.write name text).write name new = files.write name new := by
  rw [write, write, write, List.map_map]
  refine List.map_congr_left fun f _ => ?_
  by_cases hf : f.1 = name <;> simp [hf]

end Files

/-- A text whose line breaks are newlines is read as it is. -/
theorem readLines_of_plain {s : List Char} (h : '\r' ∉ s) : readLines s = s := by
  fun_induction readLines s with
  | case1 rest ih =>
      exact absurd List.mem_cons_self h
  | case2 rest _ ih =>
      exact absurd List.mem_cons_self h
  | case3 c rest _ _ ih =>
      rw [ih fun hmem => h (List.mem_cons_of_mem _ hmem)]
  | case4 =>
      rfl

theorem readLines_plain (s : List Char) : '\r' ∉ readLines s := by
  fun_induction readLines s with
  | case1 rest ih =>
      simpa using ih
  | case2 rest _ ih =>
      simpa using ih
  | case3 c rest _ hc ih =>
      rw [List.mem_cons, not_or]
      exact ⟨fun h => hc h.symm, ih⟩
  | case4 =>
      simp

/-! ## One target -/

def manifest : Target :=
  { path := "pyproject.toml", key := "version" }

def package : Target :=
  { path := "fnmaxima/__init__.py", key := "__version__" }

theorem targets_eq : targets = [manifest, package] :=
  rfl

/-- A file has a text with a first version line, between two other parts. -/
def Declares (files : Files) (target : Target) (before found after : List Char) : Prop :=
  ∃ text, files.find? target.path = some (.file text) ∧
    FirstLine target.key.toList (readLines text.toList) before found after

def Declared (files : Files) (target : Target) : Prop :=
  ∃ before found after, Declares files target before found after

/-- The text of a target with a version line in between. -/
def stamped (target : Target) (version : String) (before after : List Char) : String :=
  String.ofList (before ++ line target.key.toList version.toList ++ after)

theorem stamp_eq_ok_iff : stamp target version files = .ok left ↔
    ∃ before found after, Declares files target before found after ∧
      left = files.write target.path (stamped target version before after) := by
  constructor
  · intro h
    rw [stamp] at h
    split at h
    · cases h
    · cases h
    · next text hfile =>
      split at h
      · cases h
      · next new hnew =>
        cases h
        obtain ⟨⟨before, after⟩, hfound, rfl⟩ := Option.map_eq_some_iff.1 hnew
        obtain ⟨found, hfirst⟩ := find?_eq_some_iff.1 hfound
        exact ⟨before, found, after, ⟨text, hfile, hfirst⟩, rfl⟩
  · rintro ⟨before, found, after, ⟨text, hfile, hfirst⟩, rfl⟩
    rw [stamp, hfile]
    simp only [replace?, find?_eq_some_iff.2 ⟨found, hfirst⟩, Option.map_some]
    rfl

theorem Declares.stamp_eq {before found after : List Char}
    (h : Declares files target before found after)
    (version : String) :
    stamp target version files = .ok
      (files.write target.path (stamped target version before after)) :=
  stamp_eq_ok_iff.2 ⟨before, found, after, h, rfl⟩

theorem Declares.find?_write {before found after : List Char}
    (h : Declares files target before found after)
    (new other : String) :
    (files.write target.path new).find? other =
      if other = target.path then some (.file new) else files.find? other := by
  obtain ⟨text, hfile, -⟩ := h
  exact Files.find?_write hfile new other

theorem Declares.unique {before found after before' found' after' : List Char}
    (h : Declares files target before found after)
    (h' : Declares files target before' found' after') :
    before = before' ∧ found = found' ∧ after = after' := by
  obtain ⟨text, hfile, hfirst⟩ := h
  obtain ⟨text', hfile', hfirst'⟩ := h'
  cases hfile.symm.trans hfile'
  exact hfirst.unique hfirst'

/-- What a file declares is a matter of that file alone. -/
theorem declares_congr (h : left.find? target.path = files.find? target.path)
    (before found after : List Char) :
    Declares left target before found after ↔ Declares files target before found after := by
  rw [Declares, Declares, h]

theorem declared_congr (h : left.find? target.path = files.find? target.path) :
    Declared left target ↔ Declared files target := by
  simp only [Declared, declares_congr h]

/-- The key of a version line, by the kind of file it stands in. -/
def keyFor (path : String) : String :=
  if ".py".toList.isSuffixOf path.toList then "__version__" else "version"

theorem line_keyFor (h : target ∈ targets) (version : String) :
    (keyFor target.path ++ " = \"" ++ version ++ "\"").toList =
      line target.key.toList version.toList := by
  have hkeys : ∀ target ∈ targets, keyFor target.path = target.key := by decide +kernel
  simp [hkeys target h, line, Text.doubleQuote]

/-- A version line with a number stays on one line when it is read. -/
theorem line_plain (htarget : target ∈ targets) (hversion : Triple version.toList) :
    '\r' ∉ line target.key.toList version.toList := by
  have hkeys : ∀ target ∈ targets, '\r' ∉ target.key.toList := by decide +kernel
  have hnumber : '\r' ∉ version.toList := hversion.not_mem (by decide) (by decide)
  simp [line, hkeys target htarget, hnumber, Text.doubleQuote]

/-- A number stamped into a file is declared there, and in its old place. -/
theorem Declares.again (htarget : target ∈ targets) {before found after : List Char}
    (h : Declares files target before found after) (hversion : Triple version.toList) :
    Declares (files.write target.path (stamped target version before after)) target before
      (line target.key.toList version.toList) after := by
  refine ⟨_, by rw [h.find?_write, if_pos rfl], ?_⟩
  obtain ⟨text, -, hfirst⟩ := h
  -- what was read has no carriage returns, and the new line brings none, so it is read as it was
  -- written
  have hplain := readLines_plain text.toList
  rw [hfirst.split, List.mem_append, List.mem_append, not_or, not_or] at hplain
  obtain ⟨hbefore, -, hafter⟩ := hplain
  rw [stamped, String.toList_ofList, readLines_of_plain]
  · exact firstLine_rewritten (firmKey_of_mem htarget) hversion
      (find?_eq_some_iff.2 ⟨found, hfirst⟩)
  · simp only [List.mem_append, not_or]
    exact ⟨⟨hbefore, line_plain htarget hversion⟩, hafter⟩

/-- A file of plain lines with a version line is rewritten at its first one and nowhere else. The
line that is written is the first one then, so that the same version changes nothing any more, and
another leaves what it would have left before. -/
theorem stamp_rewrites (htarget : target ∈ targets)
    (hfile : files.find? target.path = some (.file text))
    (hplain : '\r' ∉ text.toList)
    (hoccurs : ∃ before found after, text.toList = before ++ (found ++ after) ∧
      Occurs target.key.toList before found after)
    (hversion : Triple version.toList) :
    ∃ before found after, FirstLine target.key.toList text.toList before found after ∧
      let written := (keyFor target.path ++ " = \"" ++ version ++ "\"").toList
      let left := files.write target.path (String.ofList (before ++ written ++ after))
      stamp target version files = .ok left ∧
      left.find? target.path = some (.file (String.ofList (before ++ written ++ after))) ∧
      (∀ name, name ≠ target.path → left.find? name = files.find? name) ∧
      FirstLine target.key.toList (before ++ written ++ after) before written after ∧
      stamp target version left = .ok left ∧
      ∀ other, Triple other.toList → stamp target other left = stamp target other files := by
  obtain ⟨before', found', after', hsplit, hoccurs⟩ := hoccurs
  obtain ⟨before, found, after, hfirst⟩ := hoccurs.exists_firstLine hsplit
  have hdeclares : Declares files target before found after :=
    ⟨text, hfile, by rwa [readLines_of_plain hplain]⟩
  have hagain := hdeclares.again htarget hversion
  refine ⟨before, found, after, hfirst, ?_⟩
  dsimp only
  rw [line_keyFor htarget, ← stamped]
  refine ⟨hdeclares.stamp_eq version, ?_, fun name hname => ?_, ?_, ?_, fun other _ => ?_⟩
  · rw [hdeclares.find?_write, if_pos rfl]
  · rw [hdeclares.find?_write, if_neg hname]
  · exact firstLine_rewritten (firmKey_of_mem htarget) hversion
      (find?_eq_some_iff.2 ⟨found, hfirst⟩)
  · rw [hagain.stamp_eq, Files.write_write]
  · rw [hagain.stamp_eq, Files.write_write, hdeclares.stamp_eq]

/-- Two files, of which the second has its version under another key. -/
def unevenFiles : Files :=
  [("pyproject.toml", .file (String.ofList spreadLine)),
    ("fnmaxima/__init__.py", .file "version = \"0.1\"\n")]

theorem stamp_rewrites_spread :
    ∃ left, stamp manifest "1.10.0" unevenFiles = .ok left ∧
      left.find? "pyproject.toml" =
        some (.file "name = \"version = \"\nversion = \"1.10.0\"\nversion = \"9\"\n") ∧
      stamp manifest "1.10.0" left = .ok left ∧
      stamp manifest "2.0.0" left = stamp manifest "2.0.0" unevenFiles := by
  have hfile : unevenFiles.find? manifest.path = some (.file (String.ofList spreadLine)) := rfl
  have hplain : '\r' ∉ (String.ofList spreadLine).toList := by
    rw [String.toList_ofList]
    decide
  have hversion : Triple "1.10.0".toList := isNumber_iff.1 (by decide +kernel)
  obtain ⟨before, found, after, hfirst, hstamp, hwritten, -, -, hagain, hother⟩ :=
    stamp_rewrites (by decide) hfile hplain
      ⟨_, _, _, String.toList_ofList.trans firstLine_spread.split, firstLine_spread.occurs⟩ hversion
  rw [String.toList_ofList] at hfirst
  obtain ⟨rfl, rfl, rfl⟩ := hfirst.unique firstLine_spread
  exact ⟨_, hstamp, hwritten, hagain, hother "2.0.0" (isNumber_iff.1 (by decide +kernel))⟩

/-! ## One target after another -/

/-- The given targets carry a version, and everything else is as before. -/
structure Stamped (version : String) (done : List Target) (files left : Files) : Prop where
  written : ∀ target ∈ done, ∃ before found after, Declares files target before found after ∧
    left.find? target.path = some (.file (stamped target version before after))
  others : ∀ name, name ∉ done.map Target.path → left.find? name = files.find? name

theorem Stamped.declared {done : List Target} (h : Stamped version done files left)
    (htarget : target ∈ done) :
    Declared files target := by
  obtain ⟨before, found, after, hdeclares, -⟩ := h.written target htarget
  exact ⟨before, found, after, hdeclares⟩

/-- A target is stamped, and then others that lie in other files. -/
theorem Stamped.cons {done : List Target} {before found after : List Char}
    (hdeclares : Declares files target before found after)
    (hapart : target.path ∉ done.map Target.path)
    (h : Stamped version done
      (files.write target.path (stamped target version before after)) left) :
    Stamped version (target :: done) files left where
  written := by
    rw [List.forall_mem_cons]
    constructor
    · refine ⟨before, found, after, hdeclares, ?_⟩
      rw [h.others _ hapart, hdeclares.find?_write, if_pos rfl]
    · intro other hother
      obtain ⟨before', found', after', hdeclares', hwritten⟩ := h.written other hother
      have hne : other.path ≠ target.path := fun heq => hapart (heq ▸ List.mem_map_of_mem hother)
      have hsame :=
        (hdeclares.find?_write (stamped target version before after) other.path).trans (if_neg hne)
      exact ⟨before', found', after', (declares_congr hsame _ _ _).1 hdeclares', hwritten⟩
  others := by
    intro name hname
    rw [List.map_cons, List.mem_cons, not_or] at hname
    rw [h.others name hname.2, hdeclares.find?_write, if_neg hname.1]

/-- Targets are stamped up to the first that declares nothing. -/
theorem stampAll_spec (version : String) {pending : List Target}
    (hapart : (pending.map Target.path).Nodup)
    (files : Files) :
    ∃ done rest, pending = done ++ rest ∧ Stamped version done files
      (stampAll version pending files).files ∧
      (∀ target ∈ rest.head?, ¬ Declared files target) ∧
      ((stampAll version pending files).problem = none ↔ rest = []) := by
  induction pending generalizing files with
  | nil =>
      exact ⟨[], [], rfl, ⟨by simp, fun _ _ => rfl⟩, by simp, by simp [stampAll]⟩
  | cons target pending ih =>
      rw [stampAll]
      cases hstamp : stamp target version files with
      | error problem =>
          refine ⟨[], target :: pending, rfl, ⟨by simp, fun _ _ => rfl⟩, ?_, by simp⟩
          rintro _ ⟨⟩ ⟨before, found, after, hdeclares⟩
          cases hstamp.symm.trans (hdeclares.stamp_eq version)
      | ok left =>
          obtain ⟨before, found, after, hdeclares, rfl⟩ := stamp_eq_ok_iff.1 hstamp
          rw [List.map_cons, List.nodup_cons] at hapart
          obtain ⟨done, rest, rfl, hdone, hrest, hproblem⟩ :=
            ih hapart.2 (files.write target.path _)
          rw [List.map_append, List.mem_append, not_or] at hapart
          refine ⟨target :: done, rest, rfl, .cons hdeclares hapart.1.1 hdone,
            fun other hother => ?_, hproblem⟩
          -- the file of the first target that was left out is still as it was
          have hne : other.path ≠ target.path :=
            fun heq => hapart.1.2 (heq ▸ List.mem_map_of_mem (List.mem_of_mem_head? hother))
          have hsame := (hdeclares.find?_write (stamped target version before after)
            other.path).trans (if_neg hne)
          exact fun hdeclared => hrest other hother ((declared_congr hsame).2 hdeclared)

/-! ## The program -/

theorem Progress.outcome_exitCode (p : Progress) :
    p.outcome.exitCode = if p.problem = none then 0 else 1 := by
  rw [outcome]
  cases p.problem with
  | none =>
      rfl
  | some problem =>
      rfl

/-- The arguments give a version, and it is accepted. -/
def Asks (args : List String) (version : String) : Prop :=
  isValid version = true ∧ ∃ numbers, commandLine.parse args = .run numbers [version]

variable {args : List String}

/-- With an accepted version, both files are stamped, or the first alone, or none. -/
theorem bump_cases (h : Asks args version) (files : Files) :
    (¬ Declared files manifest ∧ (bump args files).1.exitCode = 1 ∧ Stamped version [] files
      (bump args files).2) ∨
    (¬ Declared files package ∧ (bump args files).1.exitCode = 1 ∧
      Stamped version [manifest] files (bump args files).2) ∨
    ((bump args files).1.exitCode = 0 ∧ Stamped version targets files (bump args files).2) := by
  obtain ⟨hvalid, numbers, hparse⟩ := h
  rw [bump, hparse]
  dsimp only
  rw [apply, if_pos hvalid, Progress.outcome_exitCode]
  have hapart : (targets.map Target.path).Nodup := by decide
  obtain ⟨done, rest, hsplit, hdone, hrest, hproblem⟩ := stampAll_spec version hapart files
  rw [targets_eq] at hsplit
  simp only [hproblem]
  -- the targets that were stamped are the first ones of the two
  cases done with
  | nil =>
      obtain rfl : [manifest, package] = rest := hsplit
      exact Or.inl ⟨hrest manifest rfl, if_neg (List.cons_ne_nil _ _), hdone⟩
  | cons first done =>
      obtain ⟨rfl, htail⟩ := List.cons.inj hsplit
      cases done with
      | nil =>
          obtain rfl : [package] = rest := htail
          exact Or.inr (Or.inl ⟨hrest package rfl, if_neg (List.cons_ne_nil _ _), hdone⟩)
      | cons second done =>
          obtain ⟨rfl, hnone⟩ := List.cons.inj htail
          obtain ⟨rfl, rfl⟩ := List.append_eq_nil_iff.1 hnone.symm
          exact Or.inr (Or.inr ⟨if_pos rfl, hdone⟩)

theorem bump_of_not_asks (h : ∀ version, ¬ Asks args version) (files : Files) :
    (bump args files).2 = files ∧
    ((bump args files).1.exitCode = 0 ↔ commandLine.parse args = .help) := by
  rw [bump]
  split
  · next hparse => exact ⟨rfl, by simp [hparse]⟩
  · next numbers version hparse =>
    have hvalid : ¬ isValid version = true := fun hvalid => h version ⟨hvalid, numbers, hparse⟩
    dsimp only
    rw [apply, if_neg hvalid]
    exact ⟨rfl, by simp [Progress.outcome, hparse]⟩
  · next hhelp _ => exact ⟨rfl, by simp, fun h => (hhelp h).elim⟩

theorem bump_exitCode_iff (args : List String) (files : Files) : (bump args files).1.exitCode = 0 ↔
    commandLine.parse args = .help ∨ ∃ version, Asks args version ∧
    ∀ target ∈ targets, Declared files target := by
  by_cases hasks : ∃ version, Asks args version
  · obtain ⟨version, hasks⟩ := hasks
    have hhelp : commandLine.parse args ≠ .help := by
      obtain ⟨-, numbers, hparse⟩ := hasks
      simp [hparse]
    rcases bump_cases hasks files with ⟨hfirst, hexit, -⟩ | ⟨hsecond, hexit, -⟩ | ⟨hexit, hdone⟩
    · rw [hexit]
      simp only [Nat.one_ne_zero, hhelp, false_or, false_iff]
      rintro ⟨_, -, hall⟩
      exact hfirst (hall manifest (by decide))
    · rw [hexit]
      simp only [Nat.one_ne_zero, hhelp, false_or, false_iff]
      rintro ⟨_, -, hall⟩
      exact hsecond (hall package (by decide))
    · exact iff_of_true hexit
        (Or.inr ⟨version, hasks, fun target htarget => hdone.declared htarget⟩)
  · rw [(bump_of_not_asks (not_exists.1 hasks) files).2]
    refine (or_iff_left ?_).symm
    rintro ⟨version, hversion, -⟩
    exact hasks ⟨version, hversion⟩

/-- If only the first file declares a version, it alone is stamped. -/
theorem bump_torn (hasks : Asks args version) {before found after : List Char}
    (hfirst : Declares files manifest before found after) (hsecond : ¬ Declared files package) :
    (bump args files).1.exitCode = 1 ∧ ∀ name, (bump args files).2.find? name =
      if name = manifest.path then some (.file (stamped manifest version before after))
        else files.find? name := by
  rcases bump_cases hasks files with ⟨hnone, -, -⟩ | ⟨-, hexit, hdone⟩ | ⟨-, hdone⟩
  · exact absurd ⟨before, found, after, hfirst⟩ hnone
  · refine ⟨hexit, fun name => ?_⟩
    obtain ⟨before', found', after', hdeclares, hwritten⟩ := hdone.written manifest (by simp)
    obtain ⟨rfl, -, rfl⟩ := hfirst.unique hdeclares
    split_ifs with hname
    · rw [hname, hwritten]
    · exact hdone.others name (by simpa using hname)
  · exact absurd (hdone.declared (by decide)) hsecond

/-- The files are in step after a bump: as they were if it failed, and else with the new version on
the version line of each, in the place of the old one. -/
structure InStep (args : List String) (files : Files) : Prop where
  failed : (bump args files).1.exitCode ≠ 0 →
    ∀ name, (bump args files).2.find? name = files.find? name
  succeeded : (bump args files).1.exitCode = 0 → ∀ version, Asks args version → ∀ target ∈ targets,
    ∃ before found after, Declares files target before found after ∧
      Declares (bump args files).2 target before (line target.key.toList version.toList) after

/-- What keeps the files in step: once the first one declares a version, the second one does too and
the version is a number alone, or there is nothing left to write into the first one. -/
def Steady (args : List String) (files : Files) : Prop :=
  ∀ version before found after, Asks args version → Declares files manifest before found after →
    (Declared files package → Triple version.toList) ∧
    (¬ Declared files package → files.find? manifest.path =
      some (.file (stamped manifest version before after)))

theorem InStep.steady (h : InStep args files) : Steady args files := by
  intro version before found after hasks hfirst
  constructor
  · intro hsecond
    have hexit : (bump args files).1.exitCode = 0 := by
      refine (bump_exitCode_iff args files).2 (Or.inr ⟨version, hasks, ?_⟩)
      rw [targets_eq, List.forall_mem_cons, List.forall_mem_singleton]
      exact ⟨⟨before, found, after, hfirst⟩, hsecond⟩
    -- the line that was written is a version line, so there is no line break in the version
    obtain ⟨_, _, _, -, _, -, hagain⟩ := h.succeeded hexit version hasks manifest (by decide)
    exact triple_of_isLine hasks.1 hagain.occurs.isLine
  · intro hsecond
    obtain ⟨hexit, hleft⟩ := bump_torn hasks hfirst hsecond
    rw [← h.failed (by rw [hexit]; decide) manifest.path, hleft, if_pos rfl]

theorem Steady.inStep (h : Steady args files) : InStep args files where
  failed := by
    intro hexit name
    by_cases hasks : ∃ version, Asks args version
    · obtain ⟨version, hasks⟩ := hasks
      rcases bump_cases hasks files with ⟨-, -, hdone⟩ | ⟨hsecond, -, hdone⟩ | ⟨hzero, -⟩
      · exact hdone.others name (by simp)
      · -- the first file alone was written, and what was written is what it held
        obtain ⟨before, found, after, hfirst⟩ := hdone.declared (List.mem_singleton_self manifest)
        rw [(bump_torn hasks hfirst hsecond).2]
        split_ifs with hname
        · rw [hname, (h version before found after hasks hfirst).2 hsecond]
        · rfl
      · exact absurd hzero hexit
    · rw [(bump_of_not_asks (not_exists.1 hasks) files).1]
  succeeded := by
    intro hexit version hasks target htarget
    rcases bump_cases hasks files with ⟨-, hone, -⟩ | ⟨-, hone, -⟩ | ⟨-, hdone⟩
    · rw [hone] at hexit
      cases hexit
    · rw [hone] at hexit
      cases hexit
    · obtain ⟨before, found, after, hfirst⟩ := hdone.declared (by decide : manifest ∈ targets)
      have htriple := (h version before found after hasks hfirst).1 (hdone.declared (by decide))
      obtain ⟨before', found', after', hdeclares, hwritten⟩ := hdone.written target htarget
      refine ⟨before', found', after', hdeclares, ?_⟩
      rw [declares_congr (hwritten.trans (by rw [hdeclares.find?_write, if_pos rfl]))]
      exact hdeclares.again htarget htriple

/-- A bump succeeds exactly if help or an accepted version is asked for, with a version line in both
files in the latter case. It keeps the files in step exactly if they are steady. If the second file
alone has no version line, the bump fails and leaves the first one written. -/
theorem bump_inStep_iff (args : List String) (files : Files) :
    ((bump args files).1.exitCode = 0 ↔
      commandLine.parse args = .help ∨ ∃ version, Asks args version ∧
      ∀ target ∈ targets, Declared files target) ∧
    (InStep args files ↔ Steady args files) ∧
    (∀ version before found after, Asks args version → Declares files manifest before found after →
      ¬ Declared files package →
        (bump args files).1.exitCode = 1 ∧ ∀ name, (bump args files).2.find? name =
          if name = manifest.path then some (.file (stamped manifest version before after))
            else files.find? name) :=
  ⟨bump_exitCode_iff args files, ⟨InStep.steady, Steady.inStep⟩,
    fun _ _ _ _ hasks hfirst hsecond => bump_torn hasks hfirst hsecond⟩

theorem bump_inStep_iff_uneven :
    Asks ["--", "1.10.0"] "1.10.0" ∧ ¬ Declared unevenFiles package ∧
    (bump ["--", "1.10.0"] unevenFiles).1.exitCode = 1 ∧
    (bump ["--", "1.10.0"] unevenFiles).2.find? "pyproject.toml" =
      some (.file "name = \"version = \"\nversion = \"1.10.0\"\nversion = \"9\"\n") ∧
    ¬ InStep ["--", "1.10.0"] unevenFiles := by
  have hasks : Asks ["--", "1.10.0"] "1.10.0" := ⟨by decide +kernel, [], by decide +kernel⟩
  have hfirst : Declares unevenFiles manifest _ _ _ :=
    ⟨_, rfl, by rw [String.toList_ofList, readLines_of_plain (by decide)]; exact firstLine_spread⟩
  have hsecond : ¬ Declared unevenFiles package := by
    rintro ⟨before, found, after, h⟩
    have hnone : stamp package "1.10.0" unevenFiles = .error (.noVersionLine package.path) := by
      decide +kernel
    cases hnone.symm.trans (h.stamp_eq "1.10.0")
  obtain ⟨-, hiff, htorn⟩ := bump_inStep_iff ["--", "1.10.0"] unevenFiles
  obtain ⟨hexit, hleft⟩ := htorn _ _ _ _ hasks hfirst hsecond
  refine ⟨hasks, hsecond, hexit, hleft _, fun h => ?_⟩
  exact absurd ((hiff.1 h _ _ _ _ hasks hfirst).2 hsecond) (by decide +kernel)

/-- The second file is missing. The bump fails, and the first file has the new version. -/
theorem bump_leaves_apart :
    bump ["0.2.0"] [("pyproject.toml", .file "version = \"0.1.0\"\n")] =
      ({ exitCode := 1
         output :=
           "Updated version in pyproject.toml to 0.2.0\nError: fnmaxima/__init__.py not found\n" },
       [("pyproject.toml", .file "version = \"0.2.0\"\n")]) ∧
    ¬ InStep ["0.2.0"] [("pyproject.toml", .file "version = \"0.1.0\"\n")] := by
  refine ⟨by decide +kernel, fun h => ?_⟩
  have hsame := h.failed (by decide +kernel) "pyproject.toml"
  exact absurd hsame (by decide +kernel)

end Version
end Peaks
