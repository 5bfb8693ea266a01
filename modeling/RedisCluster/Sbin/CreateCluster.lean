import RedisCluster.Shell.Machine

/-!
# `create_cluster.sh` and `cluster_env.sh`

Lines 12–21 of `create_cluster.sh.0`: the script sources `cluster_env.sh`, reads the list
of the instances through `xargs`, and hands it to `redis-cli`. Under `nounset` and
`errexit` an unset variable or a missing file ends it.

* `sourceEnv`: the assignments of `cluster_env.sh`, of the kinds that its template has.
* `xargs`: the words of a file, on one line or more.
* `createCluster`: the arguments of `redis-cli`.
* `xargs_words`: what `xargs` prints has the words of the file.
-/

namespace RedisCluster

open Substitution

/-! ## `cluster_env.sh` -/

/-- The variables that are set, the last assignment first. -/
abbrev Env := List (Text × Text)

/-- `"...$NAME..."`: every `$` begins the name of a variable, which has to be set. -/
def expandVars (env : Env) (t : Text) : Option Text :=
  match t.splitOn '$' with
  | [] => some []
  | start :: rest =>
    (rest.mapM fun piece => (valueOf env (piece.takeWhile isWordChar)).map
      (· ++ piece.dropWhile isWordChar)).map fun pieces => start ++ pieces.flatten

/-- What stands between `pre` and `post`. -/
def between (pre post t : Text) : Option Text :=
  if pre <+: t ∧ post <:+ t ∧ pre.length + post.length ≤ t.length then
    some ((t.drop pre.length).take (t.length - pre.length - post.length))
  else none

/-- A character that means something between double quotes, the dollar aside. -/
def isQuoteSpecial (ch : Char) : Bool := ch == '"' || ch == '\\' || ch == '`'

/-- A character that stands for itself in a word without quotes. -/
def isBareChar (ch : Char) : Bool :=
  isWordChar ch || ch == '-' || ch == '.' || ch == ',' || ch == ':' || ch == '+' || ch == '@' ||
    ch == '%' || ch == '='

/-- `"text"` -/
def quoted (t : Text) : Option Text :=
  (between ['"'] ['"'] t).filter fun inner => !inner.any isQuoteSpecial

/-- The right side of an assignment: `"text"`, `$(cat "file")` or a plain word. A file
    that is missing ends the script, and so does anything else. -/
def assigned (fs : FS) (cwd : Path) (env : Env) (t : Text) : Option Text :=
  match quoted t with
  | some inner => expandVars env inner
  | none =>
    match (between "$(cat ".toList ")".toList t).bind quoted with
    | some file => (expandVars env file).bind fun file =>
      (contentFrom fs cwd (pathWord file)).map commandSubst
    | none => if t.all isBareChar then some t else none

/-- `NAME=value` -/
def sourceLine (fs : FS) (cwd : Path) (env : Env) (l : Text) : Option Env :=
  if '=' ∈ l then
    (assigned fs cwd env ((l.dropWhile (· ≠ '=')).drop 1)).map fun v => (l.takeWhile (· ≠ '='), v) :: env
  else none

/-- `. cluster_env.sh` -/
def sourceEnv (fs : FS) (cwd : Path) (t : Text) : Option Env :=
  (records t).foldlM (sourceLine fs cwd) []

/-! ## `xargs` -/

/-- How `xargs` spreads words over the runs of its command. -/
structure Batches where
  cut : List Text → List (List Text)
  flatten_cut : ∀ ws, (cut ws).flatten = ws

/-- All of them in one run. -/
def oneBatch : Batches where
  cut ws := [ws]
  flatten_cut := by simp

/-- The characters that `xargs` does not take as they are, the blanks aside. -/
def isXargsSpecial (ch : Char) : Bool :=
  ch == '"' || ch == '\'' || ch == '\\' || ch == '\r' || ch == '\x0b' || ch == '\x0c'

/-- `xargs`: `echo` is run with the words of the input. -/
def xargs (m : Machine) (b : Batches) (t : Text) : Option Text :=
  if t.any isXargsSpecial then none else some ((b.cut (words t)).flatMap (echo m))

/-! ## `create_cluster.sh` -/

/-- The arguments with which `redis-cli` is run (line 21), if the script comes to it.
    `selfdir` is the directory of the script. -/
def createClusterArgs (m : Machine) (b : Batches) (fs : FS) (cwd : Path) (selfdir : PathWord) :
    Option (List Text) := do
  let script ← contentFrom fs cwd (selfdir ++ ["cluster_env.sh".toList])
  let env ← sourceEnv fs cwd script
  let home ← valueOf env "CLUSTERHOME".toList
  let list ← contentFrom fs cwd (pathWord (home ++ "/CLUSTER_ALL_NODES".toList))
  let nodes ← xargs m b list
  let _ ← valueOf env "CLUSTERID".toList
  let _ ← valueOf env "CLUSTERAUTHPASS".toList
  let replicas ← valueOf env "CLUSTERREPLICAS".toList
  some (["--cluster".toList, "create".toList] ++ unquoted m fs cwd (commandSubst nodes) ++
    ["--cluster-replicas".toList] ++ unquoted m fs cwd replicas)

/-! ## Lemmas -/

theorem between_append (pre post x : Text) : between pre post (pre ++ x ++ post) = some x := by
  have hlen : (pre ++ x ++ post).length - pre.length - post.length = x.length := by
    simp only [List.length_append]
    omega
  have hle : pre.length + post.length ≤ (pre ++ x ++ post).length := by
    simp only [List.length_append]
    omega
  rw [between, if_pos ⟨(List.prefix_append pre x).trans (List.prefix_append _ _),
    List.suffix_append _ _, hle⟩, hlen, List.append_assoc, List.drop_left, List.take_left]

/-- A text without a dollar is what it is. -/
theorem expandVars_of_not_mem (env : Env) {t : Text} (h : '$' ∉ t) : expandVars env t = some t := by
  rw [expandVars, List.splitOn_eq_singleton h]
  simp

/-- A variable at the front of a text. -/
theorem expandVars_var {env : Env} {name v rest : Text} (hv : valueOf env name = some v)
    (hname : ∀ ch ∈ name, isWordChar ch = true) (hrest : rest.head?.all (fun ch => !isWordChar ch) = true)
    (hdollar : '$' ∉ name ++ rest) : expandVars env ('$' :: (name ++ rest)) = some (v ++ rest) := by
  have hsplit : ('$' :: (name ++ rest)).splitOn '$' = [[], name ++ rest] := by
    have hcons := List.splitOn_append_cons_self_of_not_mem (List.not_mem_nil (a := '$')) (name ++ rest)
    rw [List.nil_append] at hcons
    rw [hcons, List.splitOn_eq_singleton hdollar]
  have hstop : rest.takeWhile isWordChar = [] ∧ rest.dropWhile isWordChar = rest := by
    cases rest with
    | nil => simp
    | cons ch rest => simpa using hrest
  have htake : (name ++ rest).takeWhile isWordChar = name := by
    rw [List.takeWhile_append_of_pos hname, hstop.1, List.append_nil]
  have hdrop : (name ++ rest).dropWhile isWordChar = rest := by
    rw [List.dropWhile_append_of_pos hname, hstop.2]
  rw [expandVars, hsplit]
  simp [htake, hdrop, hv]

theorem quoted_eq {t : Text} (h : ∀ ch ∈ t, isQuoteSpecial ch = false) :
    quoted ('"' :: (t ++ ['"'])) = some t := by
  have hb := between_append ['"'] ['"'] t
  rw [List.singleton_append, List.cons_append] at hb
  rw [quoted, hb, Option.filter_some, if_pos]
  simpa using h

theorem quoted_of_head {ch : Char} (h : ch ≠ '"') (t : Text) : quoted (ch :: t) = none := by
  have hno : ¬ ['"'] <+: ch :: t := by
    intro hp
    exact h (by simpa using (List.cons_prefix_cons.mp hp).1.symm)
  rw [quoted, between, if_neg fun hand => hno hand.1]
  rfl

theorem sourceLine_eq (fs : FS) (cwd : Path) (env : Env) {name : Text} (h : '=' ∉ name) (t : Text) :
    sourceLine fs cwd env (name ++ '=' :: t) =
      (assigned fs cwd env t).map fun v => (name, v) :: env := by
  have hname : ∀ ch ∈ name, (decide (ch ≠ '=')) = true := by
    intro ch hch
    simpa using fun he : ch = '=' => h (he ▸ hch)
  rw [sourceLine, if_pos (by simp), List.takeWhile_append_of_pos hname,
    List.dropWhile_append_of_pos hname]
  simp

/-- `NAME="text"` -/
theorem sourceLine_quoted (fs : FS) (cwd : Path) (env : Env) {name t v : Text} (hname : '=' ∉ name)
    (ht : ∀ ch ∈ t, isQuoteSpecial ch = false) (hv : expandVars env t = some v) :
    sourceLine fs cwd env (name ++ '=' :: '"' :: (t ++ ['"'])) = some ((name, v) :: env) := by
  rw [sourceLine_eq fs cwd env hname, assigned, quoted_eq ht]
  simp only [hv, Option.map_some]

/-- `NAME=word` -/
theorem sourceLine_bare (fs : FS) (cwd : Path) (env : Env) {name t : Text} (hname : '=' ∉ name)
    (ht : ∀ ch ∈ t, isBareChar ch = true) :
    sourceLine fs cwd env (name ++ '=' :: t) = some ((name, t) :: env) := by
  have hquoted : quoted t = none := by
    cases t with
    | nil => rfl
    | cons ch t =>
      refine quoted_of_head ?_ t
      rintro rfl
      exact absurd (ht '"' (by simp)) (by decide)
  have hcat : between "$(cat ".toList ")".toList t = none := by
    rw [between, if_neg]
    rintro ⟨hp, -⟩
    exact absurd (ht '$' (hp.mem (by decide))) (by decide)
  rw [sourceLine_eq fs cwd env hname, assigned, hquoted, hcat]
  simp only [Option.bind_none, List.all_eq_true.mpr ht, if_true, Option.map_some]

/-- `NAME=$(cat "file")` -/
theorem sourceLine_cat (fs : FS) (cwd : Path) (env : Env) {name file path x : Text} (hname : '=' ∉ name)
    (hfile : ∀ ch ∈ file, isQuoteSpecial ch = false) (hpath : expandVars env file = some path)
    (hx : contentFrom fs cwd (pathWord path) = some x) :
    sourceLine fs cwd env (name ++ '=' :: ("$(cat ".toList ++ ('"' :: (file ++ ['"'])) ++ ")".toList)) =
      some ((name, commandSubst x) :: env) := by
  have hquoted : quoted ("$(cat ".toList ++ ('"' :: (file ++ ['"'])) ++ ")".toList) = none :=
    quoted_of_head (by decide) _
  rw [sourceLine_eq fs cwd env hname, assigned, hquoted, between_append]
  simp only [Option.bind_some, quoted_eq hfile, hpath, hx, Option.map_some]

/-- `xargs` prints the words of its input. -/
theorem xargs_words {m : Machine} (b : Batches) {t : Text} (ht : t.any isXargsSpecial = false)
    (hwords : ∀ w ∈ words t, isEchoOption w = false) :
    ∃ out, xargs m b t = some out ∧ words out = words t ∧ ∀ ch ∈ out, isBlank ch = true ∨ ch ∈ t := by
  have hmem : ∀ ws ∈ b.cut (words t), ∀ w ∈ ws, w ∈ words t := by
    intro ws hws w hw
    rw [← b.flatten_cut (words t)]
    exact List.mem_flatten.mpr ⟨ws, hws, hw⟩
  have hecho : ∀ ws ∈ b.cut (words t), echo m ws = join ws ++ ['\n'] := by
    intro ws hws
    apply echo_of_not_option
    cases hhead : ws.head? with
    | none => rfl
    | some w => exact hwords w (hmem ws hws w (List.mem_of_head? hhead))
  refine ⟨_, by rw [xargs, if_neg (by simp [ht])], ?_, fun ch hch => ?_⟩
  · rw [List.flatMap_congr hecho, words_flatMap (fun ws => Or.inr ⟨join ws, rfl⟩)]
    have hone : ∀ ws ∈ b.cut (words t), words (join ws ++ ['\n']) = ws := by
      intro ws hws
      rw [words_append_blank (by decide), words_nil, List.append_nil,
        words_join fun w hw => isWord_of_mem_words (hmem ws hws w hw)]
    rw [List.flatMap_congr hone, List.flatMap_id', b.flatten_cut]
  · obtain ⟨ws, hws, hch⟩ := List.mem_flatMap.mp hch
    rw [hecho ws hws] at hch
    rcases List.mem_append.mp hch with hch | hch
    · rcases mem_join hch with rfl | ⟨w, hw, hch⟩
      · exact Or.inl rfl
      · exact Or.inr (mem_of_mem_words (hmem ws hws w hw) ch hch)
    · rw [List.mem_singleton.mp hch]
      exact Or.inl rfl

end RedisCluster
