import RedisCluster.Library.Substitution
import RedisCluster.Shell.Path

/-!
# The machine and its text tools

A `Machine` stands for what the script finds on the host it runs on: the host
name and addresses, what `tar` and `make` do, and what the text tools do with
inputs outside the fragments that are defined here.

* `expand`, `listWords`: pathname expansion, and how the script makes an array
  of a comma or blank separated setting.
* `items`: the items of such a setting; `listWords_eq_items`.
* `echo`, `grepQW`, `arith`: the builtins and tools the script uses.
* `sedScript`, `sed`: `s/{NAME}/value/g` with a value pasted into the script.
-/

namespace RedisCluster

open Substitution

/-- What an operand of `[[ ... -lt ... ]]` evaluates to. -/
inductive Arith where
  | value (n : ℤ)
  | malformed
  | unbound
  deriving DecidableEq

/-- A host. `glob`, `echoEscapes`, `awkOther`, `sedOther`, `grepOther`, `arithOther`
    and `testOther` say what the shell and its tools do outside the fragments below;
    `sedOther` is `none` when `sed` rejects the script. `topLevel` lists the
    top-level names in a package, `tar` and `make` return the tree they leave
    and whether they succeed. -/
structure Machine where
  hostnameS : Text
  hostnameI : Text
  glob : FS → Path → Text → List Text
  echoEscapes : Text → Text
  awkOther : (cfgFile sectionName keyName : Text) → Text
  sedOther : (mark value input : Text) → Option Text
  grepOther : (pattern input : Text) → Bool
  arithOther : Text → Arith
  testOther : List Text → Bool
  topLevel : Text → List Text
  tar : Text → Path → FS → FS × Bool
  make : List Text → Path → FS → FS × Bool

/-- A host with nothing special about it: no word matches a file, the tools reject
    what is outside the fragments, a package unpacks to a directory with the
    package's name, and `make` succeeds. -/
def plainHost : Machine where
  hostnameS := "hacl-node1".toList
  hostnameI := "192.168.56.111 10.0.2.7 ".toList
  glob := fun _ _ w => [w]
  echoEscapes := id
  awkOther := fun _ _ _ => []
  sedOther := fun _ _ _ => none
  grepOther := fun _ _ => false
  arithOther := fun _ => .malformed
  testOther := fun _ => false
  topLevel := fun pkg => [pkg.take (pkg.length - ".tar.gz".length)]
  tar := fun pkg dir fs =>
    (FileTree.set fs (dir ++ [pkg.take (pkg.length - ".tar.gz".length)]) .dir, true)
  make := fun _ _ fs => (fs, true)

/-! ## Builtins -/

/-- Pathname expansion looks at a word with one of these characters. -/
def isGlobChar (c : Char) : Bool := c == '*' || c == '?' || c == '['

/-- Pathname expansion of a word in the current directory. -/
def expand (m : Machine) (fs : FS) (cwd : Path) (w : Text) : List Text :=
  if w.any isGlobChar then m.glob fs cwd w else [w]

/-- The fields of an unquoted expansion: words, then pathname expansion. -/
def unquoted (m : Machine) (fs : FS) (cwd : Path) (t : Text) : List Text :=
  (words t).flatMap (expand m fs cwd)

/-- `-n`, `-e`, `-E` and their combinations. -/
def isEchoOption : Text → Bool
  | '-' :: c :: cs => (c :: cs).all fun c => c == 'n' || c == 'e' || c == 'E'
  | _ => false

/-- `echo args`: the options at the front say whether a newline follows and
    whether backslash escapes are interpreted; the last of `e` and `E` counts. -/
def echo (m : Machine) (args : List Text) : Text :=
  let options := (args.takeWhile isEchoOption).flatten
  let body := join (args.dropWhile isEchoOption)
  let body := if 'n' ∈ options then body else body ++ ['\n']
  if (options.filter fun c => c == 'e' || c == 'E').getLast? = some 'e' ∧ '\\' ∈ body then
    m.echoEscapes body
  else body

/-- `awk -F[,] '{ for(i=1; i<=NF; i++) print $i; }'` -/
def awkCommas (t : Text) : Text :=
  (records t).flatMap fun r => if r = [] then [] else (r.splitOn ',').flatMap (· ++ ['\n'])

/-- `list=($(echo "$t" | awk -F[,] '{ for(i=1; i<=NF; i++) print $i; }'))` -/
def listWords (m : Machine) (fs : FS) (cwd : Path) (t : Text) : List Text :=
  unquoted m fs cwd (commandSubst (awkCommas (echo m [t])))

/-- A decimal numeral: no leading zero, which would make it octal. -/
def isDecimal : Text → Bool
  | [] => false
  | ['0'] => true
  | c :: cs => c != '0' && (c :: cs).all Char.isDigit

/-- Digits behind a zero: a numeral that is read as octal. -/
def isOctal : Text → Bool
  | '0' :: c :: cs => (c :: cs).all Char.isDigit
  | _ => false

/-- An operand of `-lt`, or a variable in `$((...))`; an empty one counts as zero, an octal
    one with an `8` or a `9` is an error, and numbers have 64 bits. -/
def arith (m : Machine) (t : Text) : Arith :=
  if t = [] then .value 0
  else if isDecimal t then
    .value (Int.bmod (t.foldl (fun n c => 10 * n + (c.toNat - '0'.toNat)) 0 : ℕ) (Nat.pow 2 64))
  else if isOctal t then
    if t.all (· ≤ '7') then .value (Int.bmod (Nat.ofDigitChars 8 t 0 : ℕ) (Nat.pow 2 64))
    else .malformed
  else m.arithOther t

/-- A text without glob characters is only split. -/
theorem unquoted_of_not_glob (m : Machine) (fs : FS) (cwd : Path) {t : Text}
    (h : ∀ c ∈ t, isGlobChar c = false) : unquoted m fs cwd t = words t := by
  have hw : ∀ w ∈ words t, expand m fs cwd w = [w] := by
    intro w hw
    have hany : w.any isGlobChar = false := by
      rw [List.any_eq_false]
      intro c hc
      simp [h c (mem_of_mem_words hw c hc)]
    simp [expand, hany]
  rw [unquoted, List.flatMap_congr hw]
  simp [List.flatMap_singleton']

theorem isEchoOption_of_head {t : Text} (h : t.head? ≠ some '-') : isEchoOption t = false := by
  unfold isEchoOption
  split
  · exact absurd rfl h
  · rfl

/-- `echo` of words that do not begin with an option. -/
theorem echo_of_not_option (m : Machine) {args : List Text}
    (h : args.head?.any isEchoOption = false) : echo m args = join args ++ ['\n'] := by
  cases args with
  | nil => simp [echo]
  | cons a args =>
    have ha : isEchoOption a = false := by simpa using h
    simp [echo, ha]

/-- Without backslashes, only the options at the front are not shown as they are. -/
theorem echo_of_not_backslash (m : Machine) {args : List Text}
    (h : '\\' ∉ join (args.dropWhile isEchoOption)) :
    echo m args = join (args.dropWhile isEchoOption) ∨
      echo m args = join (args.dropWhile isEchoOption) ++ ['\n'] := by
  have hline : '\\' ∉ join (args.dropWhile isEchoOption) ++ ['\n'] := by simp [h]
  unfold echo
  dsimp only
  split_ifs with hn hescapes hescapes
  · exact absurd hescapes.2 h
  · exact Or.inl rfl
  · exact absurd hescapes.2 hline
  · exact Or.inr rfl

/-- A single word is shown as it is, if at all. -/
theorem mem_of_mem_echo_singleton {m : Machine} {t : Text} {ch : Char} (h : ch ∈ echo m [t]) :
    ch ∈ t ∨ ch = '\n' := by
  cases ht : isEchoOption t with
  | false =>
    rw [echo_of_not_option m (by simp [ht])] at h
    simpa [join] using h
  | true =>
    right
    by_cases hn : 'n' ∈ t
    · simp [echo, ht, hn] at h
    · simpa [echo, ht, hn] using h

/-- What `echo` prints has the characters of its arguments, blanks, and what it makes of
    backslash escapes. -/
theorem forall_mem_echo {m : Machine} {P : Char → Prop} (hblank : P ' ') (hnl : P '\n')
    (hescapes : ∀ t, (∀ ch ∈ t, P ch) → ∀ ch ∈ m.echoEscapes t, P ch) {args : List Text}
    (hargs : ∀ a ∈ args, ∀ ch ∈ a, P ch) : ∀ ch ∈ echo m args, P ch := by
  have hjoin : ∀ ch ∈ join (args.dropWhile isEchoOption), P ch := by
    intro ch hch
    rcases mem_join hch with rfl | ⟨a, ha, hch⟩
    · exact hblank
    · exact hargs a ((List.dropWhile_suffix _).mem ha) ch hch
  have hline : ∀ ch ∈ join (args.dropWhile isEchoOption) ++ ['\n'], P ch := by
    intro ch hch
    rcases List.mem_append.mp hch with hch | hch
    · exact hjoin ch hch
    · rw [List.mem_singleton.mp hch]
      exact hnl
  unfold echo
  dsimp only
  split_ifs
  · exact hescapes _ hjoin
  · exact hjoin
  · exact hescapes _ hline
  · exact hline

theorem mem_of_mem_records {t r : Text} (h : r ∈ records t) : ∀ ch ∈ r, ch ∈ t := by
  rw [records] at h
  split at h
  · exact mem_of_mem_lines (List.mem_of_mem_dropLast h)
  · exact mem_of_mem_lines h

theorem mem_of_mem_awkCommas {t : Text} {ch : Char} (h : ch ∈ awkCommas t) : ch ∈ t ∨ ch = '\n' := by
  obtain ⟨r, hr, hch⟩ := List.mem_flatMap.mp h
  split at hch
  · simp at hch
  · obtain ⟨w, hw, hch⟩ := List.mem_flatMap.mp hch
    rcases List.mem_append.mp hch with hch | hch
    · exact Or.inl (mem_of_mem_records hr ch (of_mem_splitOnP hw ch hch).2)
    · exact Or.inr (List.mem_singleton.mp hch)

/-! ## List settings -/

/-- What separates the items of a list setting. -/
def isSeparator (c : Char) : Bool := isBlank c || c == ','

/-- The items of a list setting. -/
def items (t : Text) : List Text := fields isSeparator t

/-- The words that `awk` makes of one record. -/
theorem flatMap_words_splitOn (r : Text) : (r.splitOn ',').flatMap words = items r := by
  have hpieces : (r.splitOn ',').flatMap (fields isSeparator) = items r := by
    rw [← fields_intercalate (b := ',') rfl, List.intercalate_splitOn, items]
  rw [← hpieces]
  refine List.flatMap_congr fun w hw => fields_congr fun c hc => ?_
  have hcomma : c ≠ ',' := by simpa using (of_mem_splitOnP hw c hc).1
  simp [isSeparator, hcomma]

/-- **The items of a list setting**: `awk` splits at the commas, the shell at the blanks. -/
theorem words_awkCommas (t : Text) :
    words (commandSubst (awkCommas (t ++ ['\n']))) = items t := by
  have hrecord : ∀ r, words (if r = [] then [] else (r.splitOn ',').flatMap (· ++ ['\n'])) =
      items r := by
    intro r
    split
    · next h =>
      rw [h]
      rfl
    · rw [words_flatMap (fun w => Or.inr ⟨w, rfl⟩), ← flatMap_words_splitOn]
      refine List.flatMap_congr fun w _ => ?_
      rw [words_append_blank (by decide), words_nil, List.append_nil]
  have hends : ∀ r : Text, (if r = [] then [] else (r.splitOn ',').flatMap (· ++ ['\n'])) = [] ∨
      ∃ y, (if r = [] then [] else (r.splitOn ',').flatMap (· ++ ['\n'])) = y ++ ['\n'] := by
    intro r
    split
    · exact Or.inl rfl
    · right
      have hne : r.splitOn ',' ≠ [] := List.splitOn_ne_nil _ _
      refine ⟨(r.splitOn ',').dropLast.flatMap (· ++ ['\n']) ++ (r.splitOn ',').getLast hne, ?_⟩
      conv_lhs => rw [← List.dropLast_append_getLast hne]
      simp
  rw [words_commandSubst, awkCommas, records_append_newline, words_flatMap hends,
    List.flatMap_congr fun r _ => hrecord r]
  conv_rhs => rw [← intercalate_lines t, items, fields_intercalate rfl]
  rfl

/-- The list that the script makes of a setting. -/
theorem listWords_eq_items (m : Machine) (fs : FS) (cwd : Path) {t : Text}
    (hoption : isEchoOption t = false) (hglob : ∀ c ∈ t, isGlobChar c = false) :
    listWords m fs cwd t = items t := by
  have hecho : echo m [t] = t ++ ['\n'] := by
    rw [echo_of_not_option m (by simp [hoption])]
    simp [join]
  have hplain : ∀ c ∈ commandSubst (awkCommas (echo m [t])), isGlobChar c = false := by
    intro c hc
    rw [hecho] at hc
    rcases mem_of_mem_awkCommas (mem_of_mem_commandSubst hc) with hc | rfl
    · rcases List.mem_append.mp hc with hc | hc
      · exact hglob c hc
      · rw [List.mem_singleton.mp hc]
        decide
    · decide
  rw [listWords, unquoted_of_not_glob m fs cwd hplain, hecho, words_awkCommas]

/-! ## `grep -qw` -/

/-- The characters that make up words for `grep -w`. -/
def isWordChar (c : Char) : Bool := c.isAlphanum || c == '_'

/-- The characters of a pattern that match themselves. -/
def isGrepLiteral (c : Char) : Bool := isWordChar c || c == '-' || c == ':'

/-- What follows a match of `pat` at the start of a line; a dot matches any character. -/
def matchStart : Text → Text → Option Text
  | [], s => some s
  | p :: pat, c :: s => if p = '.' ∨ p = c then matchStart pat s else none
  | _ :: _, [] => none

/-- A match of `pat` as a whole word, after the character `prev`. -/
def grepWordFrom (pat : Text) : Option Char → Text → Bool
  | prev, s =>
    (!prev.any isWordChar && (matchStart pat s).any fun rest => !rest.head?.any isWordChar) ||
      match s with
      | [] => false
      | c :: s => grepWordFrom pat (some c) s

/-- `grep -qw pat` -/
def grepQW (m : Machine) (pat input : Text) : Bool :=
  if pat.all (fun c => isGrepLiteral c || c == '.') ∧ pat.head? ≠ some '-' then
    (records input).any (grepWordFrom pat none)
  else m.grepOther pat input

/-! ## `sed s/{NAME}/value/g` -/

/-- What `sed` makes of a script `s/mark/value/g`: a plain replacement, nothing
    because it rejects it, or something else. -/
inductive SedScript where
  | replace (rep : Text)
  | rejected
  | other
  deriving DecidableEq

/-- Scan the replacement part of a script up to the slash that ends it: what each
    match is replaced by, if that is plain text, and what follows the slash.
    `none` when the slash or a newline's backslash is missing. -/
def scanReplacement (mark : Text) : Text → Option (Option Text × Text)
  | [] => none
  | '\\' :: [] => none
  | '\\' :: c :: s =>
    (scanReplacement mark s).map fun r =>
      (if c.isAlphanum then none else r.1.map (c :: ·), r.2)
  | c :: s =>
    if c = '/' then some (some [], s)
    else if c = '\n' then none
    else if c = '&' then (scanReplacement mark s).map fun r => (r.1.map (mark ++ ·), r.2)
    else (scanReplacement mark s).map fun r => (r.1.map (c :: ·), r.2)

/-- The flags of an `s` command, and blanks. -/
def isSedFlag (c : Char) : Bool :=
  c.isDigit || c == 'g' || c == 'p' || c == 'i' || c == 'I' || c == 'm' || c == 'M' || c == 'e' ||
    c == ' ' || c == '\t'

/-- What may follow the flags. -/
def isSedEnd (c : Char) : Bool :=
  c == 'w' || c == '}' || c == '#' || c == ';' || c == '\n' || c == '\r'

/-- The script `s/mark/value/g`. Where the value ends the replacement early, the
    rest is read as flags; a letter that is none makes `sed` reject the script. -/
def sedScript (mark value : Text) : SedScript :=
  match scanReplacement mark (value ++ ['/', 'g']) with
  | none => .rejected
  | some (rep, rest) =>
    if rest = ['g'] then
      match rep with
      | some rep => .replace rep
      | none => .other
    else
      match rest.dropWhile isSedFlag with
      | [] => .other
      | c :: _ => if isSedEnd c then .other else .rejected

/-- `sed s/mark/value/g`; `none` when it rejects the script. -/
def sed (m : Machine) (mark value input : Text) : Option Text :=
  match sedScript mark value with
  | .replace rep => some (mapLines (replaceAll mark rep) input)
  | .rejected => none
  | .other => m.sedOther mark value input

/-- A text without the characters that mean something in a replacement. -/
def PlainValue (v : Text) : Prop := '/' ∉ v ∧ '&' ∉ v ∧ '\\' ∉ v ∧ '\n' ∉ v

instance (v : Text) : Decidable (PlainValue v) := inferInstanceAs (Decidable (_ ∧ _))

/-- `echo "$path" | sed 's/\//\\\//g'`: a backslash before every slash. -/
def escapeSlashes (t : Text) : Text := t.flatMap fun c => if c = '/' then ['\\', '/'] else [c]

end RedisCluster
