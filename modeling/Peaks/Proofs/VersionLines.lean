import Mathlib.Data.List.Basic
import Peaks.Version.Bump

/-!
# The first version line

What a version number and a version line look like is said here as a form, apart from the functions
that look for them: the functions accept these forms exactly, and `Version.find?` gives the first
version line of a text, which ends as early as it can. A line that is written in its place is found
there again. Nothing in front of it can become a version line by that, since the key at its start
cannot go on one that was begun before.

- `Version.Triple`, `Version.isNumber_iff` : three runs of digits
- `Version.Opens`, `Version.IsLine`        : the form of a version line
- `Version.FirstLine`, `Version.find?_eq_some_iff` : the first one of a text
- `Version.find?_rewritten` : another version line in its place
- `Version.isValid_exactly` : which versions are accepted, and which of them can be found again
-/

namespace Peaks
namespace Version

/-! ## Numbers -/

/-- A run of decimal digits that is not empty. -/
def Digits (s : List Char) : Prop :=
  s ≠ [] ∧ ∀ c ∈ s, Text.isDecimalDigit c = true

/-- Three runs of digits with single dots between them. -/
def Triple (s : List Char) : Prop :=
  ∃ major minor patch, Digits major ∧ Digits minor ∧ Digits patch ∧
    s = major ++ '.' :: (minor ++ '.' :: patch)

variable {s r : List Char}

/-- What comes after a run of digits, if no digit does. -/
theorem afterDigits?_append {digits : List Char} (h : Digits digits)
    (hr : ∀ c ∈ r.head?, Text.isDecimalDigit c = false) : afterDigits? (digits ++ r) = some r := by
  obtain ⟨hne, hdigits⟩ := h
  have hrest : r.dropWhile Text.isDecimalDigit = r := by
    cases r with
    | nil =>
        rfl
    | cons c r =>
        exact List.dropWhile_cons_of_neg (by simp [hr c rfl])
  cases digits with
  | nil =>
      exact absurd rfl hne
  | cons c digits =>
      have hcons := List.forall_mem_cons.1 hdigits
      rw [List.cons_append, afterDigits?, if_pos hcons.1,
        List.dropWhile_append_of_pos hcons.2, hrest]

theorem exists_of_afterDigits? (h : afterDigits? s = some r) :
    ∃ digits, Digits digits ∧ s = digits ++ r := by
  cases s with
  | nil =>
      cases h
  | cons c s =>
      rw [afterDigits?] at h
      split at h
      · next hc =>
        cases h
        refine ⟨c :: s.takeWhile Text.isDecimalDigit, ⟨List.cons_ne_nil _ _, ?_⟩, ?_⟩
        · refine List.forall_mem_cons.2 ⟨hc, fun d hd => ?_⟩
          exact List.all_eq_true.1 List.all_takeWhile d hd
        · rw [List.cons_append, List.takeWhile_append_dropWhile]
      · cases h

theorem afterChar?_eq_some_iff {c : Char} : afterChar? c s = some r ↔ s = c :: r := by
  cases s with
  | nil =>
      simp [afterChar?]
  | cons d s =>
      simp [afterChar?]

theorem isNumber_iff : isNumber s = true ↔ Triple s := by
  constructor
  · intro h
    rw [isNumber, beq_iff_eq] at h
    simp only [Option.bind_eq_bind, Option.bind_eq_some_iff, afterChar?_eq_some_iff] at h
    -- what is left over after each part is put together again from the end
    obtain ⟨s₁, h₁, s₂, rfl, s₃, h₃, s₄, rfl, h₅⟩ := h
    obtain ⟨major, hmajor, rfl⟩ := exists_of_afterDigits? h₁
    obtain ⟨minor, hminor, rfl⟩ := exists_of_afterDigits? h₃
    obtain ⟨patch, hpatch, rfl⟩ := exists_of_afterDigits? h₅
    exact ⟨major, minor, patch, hmajor, hminor, hpatch, by simp⟩
  · rintro ⟨major, minor, patch, hmajor, hminor, hpatch, rfl⟩
    have hdot : ∀ (rest : List Char), ∀ c ∈ ('.' :: rest).head?, Text.isDecimalDigit c = false := by
      intro rest c hc
      cases hc
      decide
    have hlast : afterDigits? patch = some [] := by
      simpa using afterDigits?_append (r := []) hpatch (by simp)
    simp [isNumber, afterDigits?_append hmajor (hdot _), afterDigits?_append hminor (hdot _),
      hlast, afterChar?]

/-- The characters of a number are digits and dots. -/
theorem Triple.mem (h : Triple s) {c : Char} (hc : c ∈ s) :
    Text.isDecimalDigit c = true ∨ c = '.' := by
  obtain ⟨major, minor, patch, hmajor, hminor, hpatch, rfl⟩ := h
  simp only [List.mem_append, List.mem_cons] at hc
  rcases hc with hc | rfl | hc | rfl | hc
  · exact Or.inl (hmajor.2 c hc)
  · exact Or.inr rfl
  · exact Or.inl (hminor.2 c hc)
  · exact Or.inr rfl
  · exact Or.inl (hpatch.2 c hc)

theorem Triple.not_mem (h : Triple s) {c : Char} (hdigit : Text.isDecimalDigit c = false)
    (hdot : c ≠ '.') : c ∉ s := by
  intro hc
  rcases h.mem hc with hc | hc
  · rw [hdigit] at hc
    cases hc
  · exact hdot hc

theorem isValid_iff (version : String) :
    isValid version = true ↔ Triple version.toList ∨ ∃ number, Triple number ∧
    version.toList = number ++ ['\n'] := by
  rw [isValid, Bool.or_eq_true, Bool.and_eq_true, beq_iff_eq, isNumber_iff, isNumber_iff,
    List.getLast?_eq_some_iff]
  refine or_congr_right ⟨?_, ?_⟩
  · rintro ⟨⟨number, hversion⟩, hnumber⟩
    rw [hversion, List.dropLast_concat] at hnumber
    exact ⟨number, hnumber, hversion⟩
  · rintro ⟨number, hnumber, hversion⟩
    refine ⟨⟨number, hversion⟩, ?_⟩
    rwa [hversion, List.dropLast_concat]

/-! ## The form of a version line -/

/-- A text that starts with a key and an equals sign, blanks around it, and an opening quote, and
goes on with `r`. -/
def Opens (key s r : List Char) : Prop :=
  ∃ gap gap' : List Char, (∀ c ∈ gap, Text.isBlank c = true) ∧ (∀ c ∈ gap', Text.isBlank c = true) ∧
    s = key ++ (gap ++ '=' :: (gap' ++ Text.doubleQuote :: r))

/-- A version line as a whole: no line break comes between its quotes. -/
def IsLine (key text : List Char) : Prop :=
  ∃ body, '\n' ∉ body ∧ Opens key text (body ++ [Text.doubleQuote])

/-- A version line between other texts, which starts where a line starts and ends where a line
ends. -/
structure Occurs (key before text after : List Char) : Prop where
  isLine : IsLine key text
  starts : before = [] ∨ before.getLast? = some '\n'
  ends : atLineEnd after = true

/-- The version line of a text that starts first and, among those that start there, ends first. -/
structure FirstLine (key s before text after : List Char) : Prop where
  split : s = before ++ (text ++ after)
  occurs : Occurs key before text after
  leftmost : ∀ before' text' after', s = before' ++ (text' ++ after') →
    Occurs key before' text' after' →
    before.length ≤ before'.length
  shortest : ∀ text' after', s = before ++ (text' ++ after') → Occurs key before text' after' →
    text.length ≤ text'.length

variable {key : List Char}

/-! ## What the functions find -/

/-- The part of a version line up to its opening quote. -/
def afterOpening? (key s : List Char) : Option (List Char) := do
  let s ← afterText? key s
  let s ← afterChar? '=' (s.dropWhile Text.isBlank)
  afterChar? Text.doubleQuote (s.dropWhile Text.isBlank)

theorem matchLine?_eq (key s : List Char) :
    matchLine? key s = (afterOpening? key s).bind afterClosingQuote? := by
  simp only [matchLine?, afterOpening?, Option.bind_eq_bind, Option.bind_assoc]

theorem afterText?_eq_some_iff : afterText? key s = some r ↔ s = key ++ r := by
  induction key generalizing s with
  | nil =>
      simp [afterText?]
  | cons k key ih =>
      cases s with
      | nil =>
          simp [afterText?]
      | cons c s =>
          by_cases hk : k = c
          · simp [afterText?, hk, ih]
          · simp [afterText?, hk, Ne.symm hk]

/-- Blanks are passed over up to a character that is none. -/
theorem dropWhile_blank_eq_iff {c : Char} (hc : Text.isBlank c = false) :
    s.dropWhile Text.isBlank = c :: r ↔ ∃ gap, (∀ d ∈ gap, Text.isBlank d = true) ∧
    s = gap ++ c :: r := by
  constructor
  · intro h
    refine ⟨s.takeWhile Text.isBlank, fun d hd => List.all_eq_true.1 List.all_takeWhile d hd, ?_⟩
    rw [← h, List.takeWhile_append_dropWhile]
  · rintro ⟨gap, hgap, rfl⟩
    rw [List.dropWhile_append_of_pos hgap]
    exact List.dropWhile_cons_of_neg (by simp [hc])

theorem afterOpening?_eq_some_iff : afterOpening? key s = some r ↔ Opens key s r := by
  simp only [afterOpening?, Option.bind_eq_bind, Option.bind_eq_some_iff, afterText?_eq_some_iff,
    afterChar?_eq_some_iff, dropWhile_blank_eq_iff (c := '=') (by decide),
    dropWhile_blank_eq_iff (c := Text.doubleQuote) (by decide)]
  constructor
  · rintro ⟨_, rfl, _, ⟨gap, hgap, rfl⟩, gap', hgap', rfl⟩
    exact ⟨gap, gap', hgap, hgap', rfl⟩
  · rintro ⟨gap, gap', hgap, hgap', rfl⟩
    exact ⟨_, rfl, _, ⟨gap, hgap, rfl⟩, gap', hgap', rfl⟩

/-- A quoted text and its closing quote, which ends its line, after the opening one. -/
structure Closes (s body after : List Char) : Prop where
  split : s = body ++ Text.doubleQuote :: after
  noBreak : '\n' ∉ body
  ends : atLineEnd after = true

theorem Closes.cons {c : Char} {body after : List Char} (h : Closes s body after) (hc : c ≠ '\n') :
    Closes (c :: s) (c :: body) after where
  split := by rw [h.split, List.cons_append]
  noBreak := by
    rw [List.mem_cons, not_or]
    exact ⟨Ne.symm hc, h.noBreak⟩
  ends := h.ends

theorem Closes.of_cons {c d : Char} {body after : List Char}
    (h : Closes (c :: s) (d :: body) after) :
    Closes s body after where
  split := (List.cons.inj h.split).2
  noBreak := fun hmem => h.noBreak (List.mem_cons_of_mem _ hmem)
  ends := h.ends

/-- The first quote that ends its line closes the text, and there is none before it. -/
theorem afterClosingQuote?_spec (s : List Char) :
    match afterClosingQuote? s with
    | none => ∀ body after, ¬ Closes s body after
    | some after =>
        ∃ body, Closes s body after ∧ ∀ body' after', Closes s body' after' →
          body.length ≤ body'.length := by
  induction s with
  | nil =>
      intro body after h
      cases body <;> cases h.split
  | cons c s ih =>
      rw [afterClosingQuote?]
      split_ifs with hbreak hquote
      · subst hbreak
        intro body after h
        cases body with
        | nil =>
            exact absurd (List.cons.inj h.split).1 (by decide)
        | cons d body =>
            exact h.noBreak (by rw [← (List.cons.inj h.split).1]; exact List.mem_cons_self)
      · obtain ⟨rfl, hend⟩ := hquote
        exact ⟨[], ⟨rfl, by simp, hend⟩, fun _ _ _ => Nat.zero_le _⟩
      · -- a closing quote at this place was just ruled out
        have hlater : ∀ body after, Closes (c :: s) body after → ∃ body', body = c :: body' ∧
            Closes s body' after := by
          intro body after h
          cases body with
          | nil =>
              obtain ⟨rfl, rfl⟩ := List.cons.inj h.split
              exact absurd ⟨rfl, h.ends⟩ hquote
          | cons d body =>
              obtain rfl : c = d := (List.cons.inj h.split).1
              exact ⟨body, rfl, h.of_cons⟩
        cases hfound : afterClosingQuote? s with
        | none =>
            rw [hfound] at ih
            intro body after h
            obtain ⟨body', _, h'⟩ := hlater body after h
            exact ih body' after h'
        | some after =>
            rw [hfound] at ih
            obtain ⟨body, hcloses, hfirst⟩ := ih
            refine ⟨c :: body, hcloses.cons hbreak, fun body' after' h => ?_⟩
            obtain ⟨body'', rfl, h'⟩ := hlater body' after' h
            exact Nat.succ_le_succ (hfirst body'' after' h')

/-- An opening has only one continuation. -/
theorem Opens.unique {r' : List Char} (h : Opens key s r) (h' : Opens key s r') : r = r' :=
  Option.some.inj ((afterOpening?_eq_some_iff.2 h).symm.trans (afterOpening?_eq_some_iff.2 h'))

theorem Opens.append (h : Opens key s r) (after : List Char) :
    Opens key (s ++ after) (r ++ after) := by
  obtain ⟨gap, gap', hgap, hgap', rfl⟩ := h
  exact ⟨gap, gap', hgap, hgap', by simp⟩

/-- A version line and what comes after it, told by its two quotes. -/
theorem IsLine.closes {text after : List Char} (h : IsLine key text)
    (hend : atLineEnd after = true) :
    ∃ r body, Opens key (text ++ after) r ∧ Closes r body after := by
  obtain ⟨body, hbody, hopens⟩ := h
  exact ⟨_, body, hopens.append after, by simp, hbody, hend⟩

theorem Opens.isLine {body after : List Char} (h : Opens key s r) (hcloses : Closes r body after) :
    ∃ text, s = text ++ after ∧ IsLine key text := by
  obtain ⟨gap, gap', hgap, hgap', rfl⟩ := h
  obtain ⟨rfl, hbody, _⟩ := hcloses
  refine ⟨key ++
    (gap ++ '=' :: (gap' ++ Text.doubleQuote :: (body ++ [Text.doubleQuote]))), by simp, ?_⟩
  exact ⟨body, hbody, gap, gap', hgap, hgap', rfl⟩

theorem matchLine?_none (h : matchLine? key s = none) {text after : List Char}
    (hs : s = text ++ after)
    (hline : IsLine key text) : ¬ atLineEnd after = true := by
  intro hend
  subst hs
  obtain ⟨r, body, hopens, hcloses⟩ := hline.closes hend
  rw [matchLine?_eq, afterOpening?_eq_some_iff.2 hopens, Option.bind_some] at h
  have hspec := afterClosingQuote?_spec r
  rw [h] at hspec
  exact hspec body after hcloses

theorem matchLine?_some {after : List Char} (h : matchLine? key s = some after) :
    ∃ text, s = text ++ after ∧ IsLine key text ∧ atLineEnd after = true ∧
      ∀ text' after', s = text' ++ after' → IsLine key text' → atLineEnd after' = true →
        text.length ≤ text'.length := by
  rw [matchLine?_eq, Option.bind_eq_some_iff] at h
  obtain ⟨r, hopening, hclosing⟩ := h
  have hopens := afterOpening?_eq_some_iff.1 hopening
  have hspec := afterClosingQuote?_spec r
  rw [hclosing] at hspec
  obtain ⟨body, hcloses, hfirst⟩ := hspec
  obtain ⟨text, hs, hline⟩ := hopens.isLine hcloses
  refine ⟨text, hs, hline, hcloses.ends, fun text' after' hs' hline' hend' => ?_⟩
  obtain ⟨r', body', hopens', hcloses'⟩ := hline'.closes hend'
  rw [← hs'] at hopens'
  obtain rfl := hopens.unique hopens'
  -- the lines start together and open together, so the one with the shorter body is the shorter one
  have hlength := congrArg List.length (hs.symm.trans hs')
  have hrest := congrArg List.length (hcloses.split.symm.trans hcloses'.split)
  have hbody := hfirst body' after' hcloses'
  simp only [List.length_append, List.length_cons] at hlength hrest
  omega

/-- Whether a line starts after a text that comes after the start of a line, if `start`. -/
def startsLine (start : Bool) : List Char → Bool
  | [] => start
  | c :: before => startsLine (c == '\n') before

theorem startsLine_cons_iff (c : Char) (before : List Char) (start : Bool) :
    startsLine start (c :: before) = true ↔ (c :: before).getLast? = some '\n' := by
  induction before generalizing c start with
  | nil =>
      simp [startsLine]
  | cons d before ih =>
      rw [startsLine, ih d, List.getLast?_cons_cons]

theorem startsLine_iff (before : List Char) :
    startsLine true before = true ↔ before = [] ∨ before.getLast? = some '\n' := by
  cases before with
  | nil =>
      simp [startsLine]
  | cons c before =>
      rw [startsLine_cons_iff]
      simp

variable {start : Bool} {before after rest : List Char}

theorem findFrom?_some (h : findFrom? key start s = some (before, after)) :
    ∃ rest, s = before ++ rest ∧ startsLine start before = true ∧
      matchLine? key rest = some after := by
  fun_induction findFrom? key start s generalizing before with
  | case1 s start after' here =>
      cases h
      split at here
      · next hstart => exact ⟨s, rfl, hstart, here⟩
      · cases here
  | case2 start here =>
      cases h
  | case3 start c s before' after' found here ih =>
      cases h
      obtain ⟨rest, rfl, hstart, hrest⟩ := ih found
      exact ⟨rest, rfl, hstart, hrest⟩
  | case4 start c s found here ih =>
      cases h

/-- If no version line starts here, there is some text in front of one. -/
theorem exists_cons_of_not_here (here : (if start then matchLine? key s else none) = none)
    (hs : s = before ++ rest)
    (hstart : startsLine start before = true) (hrest : matchLine? key rest ≠ none) :
    ∃ c before', before = c :: before' := by
  cases before with
  | nil =>
      rw [startsLine] at hstart
      rw [if_pos hstart, hs, List.nil_append] at here
      exact absurd here hrest
  | cons c before =>
      exact ⟨c, before, rfl⟩

/-- No version line starts in front of the one that is found. -/
theorem findFrom?_leftmost (hs : s = before ++ rest) (hstart : startsLine start before = true)
    (hrest : matchLine? key rest ≠ none) :
    ∃ found, findFrom? key start s = some found ∧ found.1.length ≤ before.length := by
  fun_induction findFrom? key start s generalizing before with
  | case1 s start after' here =>
      exact ⟨_, rfl, Nat.zero_le _⟩
  | case2 start here =>
      obtain ⟨c, before', rfl⟩ := exists_cons_of_not_here here hs hstart hrest
      cases hs
  | case3 start c s before' after' found here ih =>
      obtain ⟨d, before, rfl⟩ := exists_cons_of_not_here here hs hstart hrest
      obtain ⟨rfl, rfl⟩ := List.cons.inj hs
      obtain ⟨_, hfound, hlength⟩ := ih rfl hstart
      cases found.symm.trans hfound
      exact ⟨_, rfl, Nat.succ_le_succ hlength⟩
  | case4 start c s found here ih =>
      obtain ⟨d, before, rfl⟩ := exists_cons_of_not_here here hs hstart hrest
      obtain ⟨rfl, rfl⟩ := List.cons.inj hs
      obtain ⟨_, hfound, _⟩ := ih rfl hstart
      cases found.symm.trans hfound

theorem Occurs.matchLine? {text : List Char} (h : Occurs key before text after) :
    matchLine? key (text ++ after) ≠ none :=
  fun hnone => matchLine?_none hnone rfl h.isLine h.ends

theorem FirstLine.unique {text before' text' after' : List Char}
    (h : FirstLine key s before text after)
    (h' : FirstLine key s before' text' after') :
    before = before' ∧ text = text' ∧ after = after' := by
  have hbefore : before.length = before'.length :=
    Nat.le_antisymm (h.leftmost _ _ _ h'.split h'.occurs) (h'.leftmost _ _ _ h.split h.occurs)
  obtain ⟨rfl, hrest⟩ := List.append_inj (h.split.symm.trans h'.split) hbefore
  have htext : text.length = text'.length :=
    Nat.le_antisymm (h.shortest _ _ h'.split h'.occurs) (h'.shortest _ _ h.split h.occurs)
  exact ⟨rfl, List.append_inj hrest htext⟩

/-- The search gives the first version line, and finds none only if there is none. -/
theorem find?_eq_some_iff : find? key s = some (before, after) ↔
    ∃ text, FirstLine key s before text after := by
  have hfirst : ∀ {before after}, find? key s = some (before, after) →
      ∃ text, FirstLine key s before text after := by
    intro before after h
    obtain ⟨rest, rfl, hstart, hrest⟩ := findFrom?_some h
    obtain ⟨text, rfl, hline, hend, hshort⟩ := matchLine?_some hrest
    have hstart' := (startsLine_iff before).1 hstart
    refine ⟨text, rfl, ⟨hline, hstart', hend⟩, ?_, ?_⟩
    · intro before' text' after' hs hoccurs
      obtain ⟨_, hfound, hlength⟩ :=
        findFrom?_leftmost hs ((startsLine_iff before').2 hoccurs.starts) hoccurs.matchLine?
      cases h.symm.trans hfound
      exact hlength
    · intro text' after' hs hoccurs
      exact hshort text' after' (List.append_cancel_left hs) hoccurs.isLine hoccurs.ends
  refine ⟨hfirst, ?_⟩
  -- a first line is found as some first line, and there is only one
  rintro ⟨text, h⟩
  obtain ⟨⟨before', after'⟩, hfound, _⟩ :=
    findFrom?_leftmost h.split ((startsLine_iff before).2 h.occurs.starts) h.occurs.matchLine?
  obtain ⟨text', h'⟩ := hfirst hfound
  obtain ⟨rfl, -, rfl⟩ := h.unique h'
  exact hfound

/-- A text with a version line has a first one. -/
theorem Occurs.exists_firstLine {text : List Char} (h : Occurs key before text after)
    (hs : s = before ++ (text ++ after)) : ∃ before text after,
      FirstLine key s before text after := by
  obtain ⟨⟨before', after'⟩, hfound, -⟩ :=
    findFrom?_leftmost hs ((startsLine_iff before).2 h.starts) h.matchLine?
  obtain ⟨text', hfirst⟩ := find?_eq_some_iff.1 hfound
  exact ⟨before', text', after', hfirst⟩

/-- The version line is told by what comes before it and after it. -/
theorem firstLine_of_find? {text : List Char} (hs : s = before ++ (text ++ after))
    (h : find? key s = some (before, after)) : FirstLine key s before text after := by
  obtain ⟨text', hfirst⟩ := find?_eq_some_iff.1 h
  obtain rfl : text = text' :=
    List.append_cancel_right (List.append_cancel_left (hs.symm.trans hfirst.split))
  exact hfirst

/-! ## Writing another line in its place -/

/-- Keys on one line, which nothing that an earlier line waits for starts with. -/
structure FirmKey (key : List Char) : Prop where
  noBreak : '\n' ∉ key
  head : ∃ k rest, key = k :: rest ∧ Text.isBlank k = false ∧ k ≠ '=' ∧ k ≠ Text.doubleQuote

theorem firmKey_of_mem {target : Target} (h : target ∈ targets) : FirmKey target.key.toList := by
  simp only [targets, List.mem_cons, List.not_mem_nil, or_false] at h
  rcases h with rfl | rfl
  · exact ⟨by decide, _, _, rfl, by decide, by decide, by decide⟩
  · exact ⟨by decide, _, _, rfl, by decide, by decide, by decide⟩

/-- A function that reads along a text which ends a line takes no notice of what comes after it, and
leaves a text that ends a line as well. -/
def ReadsAlong (f : List Char → Option (List Char)) (x : List Char) : Prop :=
  ∀ u, u.getLast? = some '\n' → f (u ++ x) = (f u).map (· ++ x) ∧ ∀ r, f u = some r →
    r.getLast? = some '\n'

theorem ReadsAlong.bind {f g : List Char → Option (List Char)} {x : List Char} (hf : ReadsAlong f x)
    (hg : ReadsAlong g x) : ReadsAlong (fun s => (f s).bind g) x := by
  intro u hu
  obtain ⟨hread, hleft⟩ := hf u hu
  dsimp only
  rw [hread]
  cases hfu : f u with
  | none =>
      exact ⟨rfl, fun _ h => by cases h⟩
  | some r =>
      exact hg r (hleft r hfu)

/-- What follows a character that is no line break still ends a line. -/
theorem getLast?_of_cons {c : Char} {u : List Char} (h : (c :: u).getLast? = some '\n')
    (hc : c ≠ '\n') :
    u.getLast? = some '\n' := by
  cases u with
  | nil =>
      exact absurd (Option.some.inj h) hc
  | cons d u =>
      rwa [List.getLast?_cons_cons] at h

theorem afterText?_readsAlong (hkey : '\n' ∉ key) (x : List Char) :
    ReadsAlong (afterText? key) x := by
  induction key with
  | nil =>
      intro u hu
      refine ⟨rfl, fun r hr => ?_⟩
      cases hr
      exact hu
  | cons k key ih =>
      intro u hu
      rw [List.mem_cons, not_or] at hkey
      cases u with
      | nil =>
          cases hu
      | cons c u =>
          rw [List.cons_append, afterText?, afterText?]
          split
          · next hk => exact ih hkey.2 u (getLast?_of_cons hu (hk ▸ Ne.symm hkey.1))
          · exact ⟨rfl, fun _ h => by cases h⟩

/-- Blanks and one more character, which stands neither for a blank nor at the start of what comes
after. -/
theorem afterBlanks?_readsAlong {c k : Char} (hc : Text.isBlank c = false)
    (hk : Text.isBlank k = false) (hkc : k ≠ c)
    (x : List Char) : ReadsAlong (fun s => afterChar? c (s.dropWhile Text.isBlank)) (k :: x) := by
  intro u hu
  have hbreak : c ≠ '\n' := by
    rintro rfl
    exact absurd hc (by decide)
  have hdrop : (u ++ k :: x).dropWhile Text.isBlank = u.dropWhile Text.isBlank ++ k :: x := by
    rw [List.dropWhile_append]
    split
    · next hempty =>
      rw [List.isEmpty_iff.1 hempty]
      exact List.dropWhile_cons_of_neg (by simp [hk])
    · rfl
  dsimp only
  rw [hdrop]
  cases hleft : u.dropWhile Text.isBlank with
  | nil =>
      exact ⟨by simp [afterChar?, hkc], fun _ h => by cases h⟩
  | cons d w =>
      have hend : (d :: w).getLast? = some '\n' := by
        obtain ⟨front, hfront⟩ := List.dropWhile_suffix (l := u) Text.isBlank
        rw [hleft] at hfront
        rw [← hfront, List.getLast?_append] at hu
        simpa using hu
      rw [List.cons_append, afterChar?, afterChar?]
      split
      · next hd =>
        refine ⟨rfl, fun r hr => ?_⟩
        cases hr
        exact getLast?_of_cons hend (hd ▸ hbreak)
      · exact ⟨rfl, fun _ h => by cases h⟩

theorem afterClosingQuote?_readsAlong (x : List Char) : ReadsAlong afterClosingQuote? x := by
  intro u hu
  induction u with
  | nil =>
      cases hu
  | cons c u ih =>
      rw [List.cons_append, afterClosingQuote?, afterClosingQuote?]
      by_cases hbreak : c = '\n'
      · rw [if_pos hbreak, if_pos hbreak]
        exact ⟨rfl, fun _ h => by cases h⟩
      · have hu' := getLast?_of_cons hu hbreak
        have hend : atLineEnd (u ++ x) = atLineEnd u := by
          cases u with
          | nil =>
              cases hu'
          | cons d u =>
              rfl
        rw [if_neg hbreak, if_neg hbreak, hend]
        split
        · refine ⟨rfl, fun r hr => ?_⟩
          cases hr
          exact hu'
        · exact ih hu'

/-- A version line that starts in a text which ends a line lies in that text, if a firm key comes
after it. -/
theorem matchLine?_readsAlong (hkey : FirmKey key) (x : List Char) :
    ReadsAlong (matchLine? key) (key ++ x) := by
  obtain ⟨k, rest, hhead, hblank, hequals, hquote⟩ := hkey.head
  have hx : key ++ x = k :: (rest ++ x) := by rw [hhead, List.cons_append]
  rw [hx]
  exact (afterText?_readsAlong hkey.noBreak _).bind
    ((afterBlanks?_readsAlong (c := '=') (by decide) hblank hequals (rest ++ x)).bind
      ((afterBlanks?_readsAlong (c := Text.doubleQuote) (by decide) hblank hquote (rest ++ x)).bind
        (afterClosingQuote?_readsAlong _)))

theorem exists_of_matchLine? (h : matchLine? key s = some after) : ∃ x, s = key ++ x := by
  rw [matchLine?_eq, Option.bind_eq_some_iff] at h
  obtain ⟨r, hopening, -⟩ := h
  obtain ⟨gap, gap', -, -, rfl⟩ := afterOpening?_eq_some_iff.1 hopening
  exact ⟨_, rfl⟩

/-- A version line in the place of the first one, with the same text after it, is the first one
again. -/
theorem findFrom?_rewritten (hkey : FirmKey key) {new : List Char}
    (hnew : matchLine? key new = some after)
    (h : findFrom? key start s = some (before, after)) :
    findFrom? key start (before ++ new) = some (before, after) := by
  fun_induction findFrom? key start s generalizing before with
  | case1 s start after' here =>
      cases h
      rw [List.nil_append]
      unfold findFrom?
      split at here
      · next hstart => rw [if_pos hstart, hnew]
      · cases here
  | case2 start here =>
      cases h
  | case3 start c s before' after' found here ih =>
      cases h
      obtain ⟨rest, rfl, hstart, hrest⟩ := findFrom?_some found
      obtain ⟨x, rfl⟩ := exists_of_matchLine? hrest
      obtain ⟨y, rfl⟩ := exists_of_matchLine? hnew
      have hended : (c :: before').getLast? = some '\n' :=
        (startsLine_cons_iff c before' start).1 hstart
      -- no version line starts at this place, whatever comes after the text before the first one
      have hthere : (if start then matchLine? key (c :: (before' ++ (key ++ y)))
          else none) = none := by
        split
        · next htrue =>
          rw [if_pos htrue, ← List.cons_append, (matchLine?_readsAlong hkey x _ hended).1,
            Option.map_eq_none_iff] at here
          rw [← List.cons_append, (matchLine?_readsAlong hkey y _ hended).1, here, Option.map_none]
        · rfl
      rw [List.cons_append, findFrom?, hthere]
      simp only [ih found]
  | case4 start c s found here ih =>
      cases h

/-! ## Lines with a given version -/

/-- Characters that are neither quotes nor line breaks are passed over. -/
theorem afterClosingQuote?_append {version : List Char} (hbreak : '\n' ∉ version)
    (hquote : Text.doubleQuote ∉ version)
    (r : List Char) : afterClosingQuote? (version ++ r) = afterClosingQuote? r := by
  induction version with
  | nil =>
      rfl
  | cons c version ih =>
      rw [List.mem_cons, not_or] at hbreak hquote
      rw [List.cons_append, afterClosingQuote?, if_neg (Ne.symm hbreak.1),
        if_neg fun h => hquote.1 h.1.symm,
        ih hbreak.2 hquote.2]

/-- A written line is opened by its key and goes on with the version. -/
theorem opens_line (key version r : List Char) :
    Opens key (line key version ++ r) (version ++ Text.doubleQuote :: r) := by
  have hblank : ∀ c ∈ [' '], Text.isBlank c = true := List.forall_mem_singleton.2 (by decide)
  refine ⟨[' '], [' '], hblank, hblank, ?_⟩
  simp [line]

theorem Triple.noBreak {version : List Char} (h : Triple version) : '\n' ∉ version :=
  h.not_mem (by decide) (by decide)

theorem Triple.noQuote {version : List Char} (h : Triple version) : Text.doubleQuote ∉ version :=
  h.not_mem (by decide) (by decide)

theorem matchLine?_line {version : List Char} (h : Triple version) (hend : atLineEnd after = true) :
    matchLine? key (line key version ++ after) = some after := by
  rw [matchLine?_eq, afterOpening?_eq_some_iff.2 (opens_line key version after), Option.bind_some,
    afterClosingQuote?_append h.noBreak h.noQuote, afterClosingQuote?, if_neg (by decide),
    if_pos ⟨rfl, hend⟩]

/-- The first line with a number in it is the first line again. -/
theorem find?_rewritten (hkey : FirmKey key) {version : List Char} (hversion : Triple version)
    (h : find? key s = some (before, after)) :
    find? key (before ++ (line key version ++ after)) = some (before, after) := by
  obtain ⟨text, hfirst⟩ := find?_eq_some_iff.1 h
  exact findFrom?_rewritten hkey (matchLine?_line hversion hfirst.occurs.ends) h

theorem firstLine_rewritten (hkey : FirmKey key) {version : List Char} (hversion : Triple version)
    (h : find? key s = some (before, after)) :
    FirstLine key (before ++ line key version ++ after) before (line key version) after := by
  rw [List.append_assoc]
  exact firstLine_of_find? rfl (find?_rewritten hkey hversion h)

/-- Among accepted versions, only a number stays between the quotes of its line. -/
theorem triple_of_isLine {version : String} (hvalid : isValid version = true)
    (h : IsLine key (line key version.toList)) : Triple version.toList := by
  obtain ⟨body, hbody, hopens⟩ := h
  have hwritten := opens_line key version.toList []
  rw [List.append_nil] at hwritten
  obtain rfl : body = version.toList := List.append_cancel_right (hopens.unique hwritten)
  rcases (isValid_iff version).1 hvalid with htriple | ⟨number, -, hversion⟩
  · exact htriple
  · exact absurd (by rw [hversion]; simp) hbody

/-- Accepted are the numbers, alone or with a line break after them. Written into any text that has
a version line, an accepted version makes one line that is the first version line again exactly if
it is a number alone. -/
theorem isValid_exactly (version : String) :
    (isValid version = true ↔
      Triple version.toList ∨ ∃ number, Triple number ∧ version.toList = number ++ ['\n']) ∧
    (isValid version = true → ∀ target ∈ targets, ∀ s before text after,
      FirstLine target.key.toList s before text after →
        let written := line target.key.toList version.toList
        replace? target.key.toList version.toList s = some (before ++ written ++ after) ∧
        ('\n' ∉ written ∧ FirstLine target.key.toList
          (before ++ written ++ after) before written after ↔
          Triple version.toList)) := by
  refine ⟨isValid_iff version, fun hvalid target htarget s before text after hfirst => ?_⟩
  have hfound := find?_eq_some_iff.2 ⟨text, hfirst⟩
  have hkey := firmKey_of_mem htarget
  refine ⟨by rw [replace?, hfound]; rfl, fun h => triple_of_isLine hvalid h.2.occurs.isLine,
    fun htriple => ⟨?_, ?_⟩⟩
  · simp only [line, List.mem_append, not_or]
    exact ⟨⟨⟨hkey.noBreak, by decide⟩, htriple.noBreak⟩, by decide⟩
  · exact firstLine_rewritten hkey htriple hfound

/-- A version line over two lines of the text, with other quotes on it. -/
def spreadLine : List Char :=
  "name = \"version = \"\nversion =\n  \"0.1\" # \"old\"\nversion = \"9\"\n".toList

theorem firstLine_spread :
    FirstLine "version".toList spreadLine "name = \"version = \"\n".toList
      "version =\n  \"0.1\" # \"old\"".toList
      "\nversion = \"9\"\n".toList :=
  firstLine_of_find? (by decide +kernel) (by decide +kernel)

theorem isValid_exactly_spread :
    isValid "1.10.0" = true ∧
    replace? "version".toList "1.10.0".toList spreadLine =
      some "name = \"version = \"\nversion = \"1.10.0\"\nversion = \"9\"\n".toList ∧
    FirstLine "version".toList
      "name = \"version = \"\nversion = \"1.10.0\"\nversion = \"9\"\n".toList
      "name = \"version = \"\n".toList "version = \"1.10.0\"".toList
        "\nversion = \"9\"\n".toList := by
  have hvalid : isValid "1.10.0" = true := by decide +kernel
  obtain ⟨hwritten, hagain⟩ :=
    (isValid_exactly "1.10.0").2 hvalid ⟨"pyproject.toml", "version"⟩ (by decide) _ _ _ _
      firstLine_spread
  exact ⟨hvalid, hwritten, (hagain.2 (isNumber_iff.1 (by decide +kernel))).2⟩

/-- A number with a line break after it is accepted. What it is written into has no version line any
more. -/
theorem isValid_broken :
    isValid "1.2.3\n" = true ∧ ¬ Triple "1.2.3\n".toList ∧
    replace? "version".toList "1.2.3\n".toList "version = \"0.1.0\"\n".toList =
      some "version = \"1.2.3\n\"\n".toList ∧
    find? "version".toList "version = \"1.2.3\n\"\n".toList = none := by
  refine ⟨by decide +kernel, ?_, by decide +kernel, by decide +kernel⟩
  rw [← isNumber_iff]
  decide +kernel

end Version
end Peaks
