import RedisCluster.Tool.Contents

/-!
# What `deploy()` installs

The files that `deploy()` copies to the home directory have there the content that
`config()` has left, as nothing in between changes it.

* `homeHas_of_cp`: a copy into the home directory.
* `MakeKeeps`: `make install` leaves certain paths alone.
* `installedName`: the names that the scripts of the nodes get; `SparesEnv`.
* `deploy_installed`: the files of the home directory after a completed run.
-/

namespace RedisCluster

open FileTree Errexit Script

variable {m : Machine} {c : Cluster} {s t : Shell}

/-! ## Copies -/

/-- Where a copy goes: under the name of the source, or under that of the word. -/
theorem name_of_copyTarget {fs : FS} {cwd p : Path} {dest : PathWord} {name : Text}
    (h : copyTarget fs cwd dest name = some p) :
    (∃ d, p = d ++ [name]) ∨ IsName (lastName dest) ∧ ∃ d, p = d ++ [lastName dest] := by
  unfold copyTarget at h
  split at h
  · obtain ⟨d, hd⟩ := exists_of_fileTarget h
    rw [lastName_snoc] at hd
    exact Or.inl ⟨d, hd⟩
  · exact Or.inr ⟨(fileTarget_eq_some_iff.mp h).2.1, exists_of_fileTarget h⟩

/-- A copy under other names does not touch a path. -/
theorem not_touches_cp {src dest : PathWord} {n : Text} (hsrc : lastName src ≠ n)
    (hdest : IsName (lastName dest) → lastName dest ≠ n) (cwd : Path) (fs : FS) (d : Path) :
    (Cmd.cp src dest).touches m cwd fs (d ++ [n]) = false := by
  rw [Bool.eq_false_iff]
  intro htouch
  rcases name_of_copyTarget (of_decide_eq_true htouch) with ⟨d', hd⟩ | ⟨hname, d', hd⟩
  · exact hsrc (List.singleton_inj.mp (List.append_inj_right' hd rfl)).symm
  · exact hdest hname (List.singleton_inj.mp (List.append_inj_right' hd rfl)).symm

theorem not_touches_chmodX {file : PathWord} {n : Text} (hfile : lastName file ≠ n) (cwd : Path)
    (fs : FS) (d : Path) : (Cmd.chmodX file).touches m cwd fs (d ++ [n]) = false := by
  rw [Bool.eq_false_iff]
  intro htouch
  obtain ⟨d', hd⟩ := exists_of_fileTarget (of_decide_eq_true htouch)
  exact hfile (List.singleton_inj.mp (List.append_inj_right' hd rfl)).symm

/-- What a completed copy has done. -/
theorem of_exec_cp {src dest : PathWord} (h : (exec m (.cp src dest)).run s = (some (), t)) :
    ∃ p q f, copyTarget s.fs s.cwd dest (lastName src) = some p ∧ resolve s.fs s.cwd src = some q ∧
      dataAt s.fs q = some f ∧ t.fs = putCopy s.fs p f := by
  obtain ⟨hok, rfl⟩ := exec_eq_some_iff.mp h
  rw [Shell.after_fs_of_ok hok]
  rw [Shell.run_of_outcome hok] at hok
  simp only [Cmd.run] at hok ⊢
  cases htarget : copyTarget s.fs s.cwd dest (lastName src) with
  | none => simp [htarget] at hok
  | some p =>
    cases hsrc : resolve s.fs s.cwd src with
    | none => simp [htarget, hsrc] at hok
    | some q =>
      cases hdata : dataAt s.fs q with
      | none => simp [htarget, hsrc, hdata] at hok
      | some f =>
        simp only [htarget, hsrc, Option.bind_some, hdata] at hok ⊢
        split at hok
        · cases hok
        · next hne => exact ⟨p, q, f, rfl, rfl, hdata, by rw [if_neg hne]⟩

theorem contentOf_putCopy (fs : FS) (p : Path) (f : File) :
    contentOf (putCopy fs p f) p = some f.content := by
  simp [contentOf, dataAt, putCopy]

/-! ## The home directory -/

/-- What `$cluster_home_dir` leads to, and `$cluster_home_dir/name`. -/
def Cluster.homeTarget (c : Cluster) : Path := target [] c.clusterHomeDir
def Cluster.homeEntry (c : Cluster) (name : Text) : Path := c.homeTarget ++ [name]

/-- A name below a word with a slash at its end is one below the word. -/
theorem target_slash {w : PathWord} (hw : IsAbsolute w) {n : Text} (hn : IsName n) (cwd : Path) :
    target cwd (w ++ [[], n]) = target [] w ++ [n] := by
  have hsplit : w ++ [[], n] = w ++ [[]] ++ [n] := by simp
  have hslash : target cwd (w ++ [[]]) = target cwd w := by
    obtain ⟨ns, rfl⟩ := hw
    simp [target, startOf, step]
  rw [hsplit, target_append_name hn, hslash, hw.target_eq]

theorem resolve_slash {fs : FS} {w : PathWord} (hw : IsAbsolute w) {n : Text} {cwd p : Path}
    (h : resolve fs cwd (w ++ [[], n]) = some p) : resolve fs [] (w ++ [n]) = some p := by
  obtain ⟨ns, rfl⟩ := hw
  have hne : ([] :: ns) ++ [[], n] ≠ [[]] := by simp
  have hne' : ([] :: ns) ++ [n] ≠ [[]] := by simp
  rw [resolve, if_neg hne] at h
  rw [resolve, if_neg hne']
  have hstart : startOf cwd ([] :: ns ++ [[], n]) = ([], ns ++ [[]] ++ [n]) := by simp [startOf]
  have hstart' : startOf [] ([] :: ns ++ [n]) = ([], ns ++ [n]) := rfl
  rw [hstart, walk_eq_some_iff, dropLast_visited_snoc] at h
  rw [hstart', walk_eq_some_iff, dropLast_visited_snoc]
  obtain ⟨hp, hdirs⟩ := h
  refine ⟨?_, fun q hq => hdirs q (mem_visited_append hq _)⟩
  rw [hp]
  simp [step]

/-- A file of the home directory, as the copies into it leave it. -/
structure HomeHas (c : Cluster) (s : Shell) (name x : Text) : Prop where
  resolve : resolve s.fs [] (c.inHome name) = some (c.homeEntry name)
  content : contentOf s.fs (c.homeEntry name) = some x

theorem HomeHas.contentAt_eq {name x : Text} (h : HomeHas c s name x) :
    contentAt s.fs (c.inHome name) = some x := by
  rw [contentAt, h.resolve, Option.bind_some, ← contentOf, h.content]

/-- **A copy into the home directory**: the file is found there, with the content of its
    source. -/
theorem homeHas_of_cp (hhome : IsAbsolute c.clusterHomeDir) {name : Text} (hn : IsName name)
    (h : (exec m (.cp (c.inConfig name) c.homeSlash)).run s = (some (), t)) :
    ∃ x, contentOf s.fs (c.configEntry name) = some x ∧ HomeHas c t name x := by
  have hgrows := grows_of_exec (c := .cp _ _) trivial h
  obtain ⟨p, q, f, htarget, hsrc, hdata, hfs⟩ := of_exec_cp h
  rw [lastName_inConfig] at htarget
  have hfile : fileTarget s.fs s.cwd (c.clusterHomeDir ++ [[], name]) = some p := by
    have hword : c.homeSlash ++ [name] = c.clusterHomeDir ++ [[], name] := by
      simp [Cluster.homeSlash]
    unfold copyTarget at htarget
    split at htarget
    · rwa [hword] at htarget
    · have hempty := (fileTarget_eq_some_iff.mp htarget).2.1
      rw [Cluster.homeSlash, lastName_snoc] at hempty
      exact absurd rfl hempty.1
  have hresolve := (fileTarget_eq_some_iff.mp hfile).1
  have hp : p = c.homeEntry name := by
    rw [resolve_eq_target hresolve, target_slash hhome hn, Cluster.homeEntry, Cluster.homeTarget]
  have hq : q = c.configEntry name := by
    rw [resolve_eq_target hsrc, target_inConfig c hn]
  refine ⟨f.content, by rw [contentOf, ← hq, hdata, Option.map_some], ?_, ?_⟩
  · rw [← hp]
    exact resolve_of_grows hgrows (resolve_slash hhome hresolve)
  · rw [hfs, ← hp, contentOf_putCopy]

/-! ## Frames -/

/-- `make` leaves what is at a path alone, wherever and however it is run. -/
def MakeKeeps (m : Machine) (p : Path) : Prop :=
  ∀ args dir fs, ((m.make args dir) fs).1 p = fs p

theorem contentOf_of_make {args : List Text} {installDir : Option PathWord} {p : Path}
    (hmake : MakeKeeps m p) (h : (exec m (.make args installDir)).run s = (some (), t)) :
    contentOf t.fs p = contentOf s.fs p := by
  obtain ⟨hok, rfl⟩ := exec_eq_some_iff.mp h
  rw [Shell.after_fs_of_ok hok, contentOf, contentOf]
  have hsame : (Cmd.run m s.cwd s.fs (.make args installDir)).1 p = s.fs p := by
    simp only [Cmd.run, confine]
    split
    · next hregion => rw [hmake, if_pos hregion]
    · rfl
  unfold dataAt
  rw [hsame]

theorem contentOf_of_cdMake {dir : PathWord} {args : FS → Path → List Text}
    {installDir : Option PathWord} {p : Path} (hmake : MakeKeeps m p)
    (h : (cdMake m dir args installDir).run s = (some (), t)) :
    contentOf t.fs p = contentOf s.fs p := by
  have hcd : contentOf (s.after m (.cd dir)).fs p = contentOf s.fs p := by
    rw [contentOf, (s.changes_after m (.cd dir)).dataAt_eq (by simp [Cmd.touches]), contentOf]
  rcases cdMake_eq_some_iff.mp h with ⟨-, hrun⟩ | ⟨-, rfl⟩
  · rw [contentOf_of_make hmake hrun, hcd]
  · exact hcd

/-- The name that the copy of a node's script gets. -/
def installedName (stem : String) (nodeid : Text) : Text := lastName (pathWord (scriptName stem nodeid))

theorem lastName_script (stem : String) (id : Text) :
    lastName (c.clusterHomeDir ++ pathWord (scriptName stem id)) = installedName stem id := by
  rw [installedName, lastName_append (pathWord_ne_nil _)]

theorem slash_not_mem_sh : '/' ∉ ".sh".toList := by decide

/-- A script is installed under a name with the script's ending. -/
theorem installedName_eq (stem : String) (id : Text) :
    installedName stem id = lastName (pathWord (stem.toList ++ '-' :: id)) ++ ".sh".toList := by
  rw [installedName, scriptName, lastName_pathWord_append _ slash_not_mem_sh]

/-- An id with slashes gives it the name behind the last one. -/
theorem installedName_of_slash {stem : String} {id : Text} (hid : '/' ∈ id) :
    installedName stem id = lastName (pathWord id) ++ ".sh".toList := by
  obtain ⟨x, y, rfl⟩ := List.append_of_mem hid
  have hcons : stem.toList ++ '-' :: (x ++ '/' :: y) = (stem.toList ++ '-' :: x) ++ '/' :: y := by simp
  rw [installedName_eq, hcons, lastName_pathWord_slash, lastName_pathWord_slash]

theorem slash_not_mem_scriptName {stem : String} (hstem : stem ∈ scriptStems) {id : Text}
    (hid : '/' ∉ id) : '/' ∉ scriptName stem id := by
  have hstart : '/' ∉ stem.toList := by
    simp only [scriptStems, List.mem_cons, List.not_mem_nil, or_false] at hstem
    rcases hstem with rfl | rfl | rfl | rfl <;> decide
  have hend := slash_not_mem_sh
  unfold scriptName
  generalize ".sh".toList = b at hend
  generalize stem.toList = a at hstart
  simp [hstart, hend, hid]

/-- Another one is found behind the stem. -/
theorem installedName_of_not_slash {stem : String} (hstem : stem ∈ scriptStems) {id : Text}
    (hid : '/' ∉ id) : installedName stem id = scriptName stem id := by
  have hname := slash_not_mem_scriptName hstem hid
  rw [installedName, pathWord, List.splitOn_eq_singleton hname]
  rfl

/-- The names that no copy of a node's other files has. -/
def NotInstalled (n : Text) : Prop :=
  (∀ stem ∈ scriptStems, ¬ stem.toList <+: n) ∧ ¬ ".conf".toList <:+ n ∧
    n ≠ "create_cluster.sh".toList

instance (n : Text) : Decidable (NotInstalled n) := inferInstanceAs (Decidable (_ ∧ _ ∧ _))

/-- No script of a node is installed under the name. -/
def ScriptsAvoid (id n : Text) : Prop := ∀ stem ∈ scriptStems, installedName stem id ≠ n

theorem scriptsAvoid_of_not_sh (id : Text) {n : Text} (hn : ¬ ".sh".toList <:+ n) :
    ScriptsAvoid id n := by
  rintro stem - rfl
  rw [installedName_eq] at hn
  exact hn (List.suffix_append _ _)

/-- The id does not make a script `cluster_env.sh`, as `x/cluster_env` would. -/
def SparesEnv (id : Text) : Prop := '/' ∈ id → lastName (pathWord id) ≠ "cluster_env".toList

instance (id : Text) : Decidable (SparesEnv id) := inferInstanceAs (Decidable (_ → _))

theorem SparesEnv.scriptsAvoid {id : Text} (h : SparesEnv id) :
    ScriptsAvoid id "cluster_env.sh".toList := by
  intro stem hstem he
  have henv : "cluster_env.sh".toList = "cluster_env".toList ++ ".sh".toList := by decide +kernel
  by_cases hid : '/' ∈ id
  · rw [installedName_of_slash hid, henv] at he
    exact h hid (List.append_cancel_right he)
  · rw [installedName_of_not_slash hstem hid] at he
    have hprefix : stem.toList <+: "cluster_env.sh".toList := by
      rw [← he, scriptName, List.append_assoc]
      exact List.prefix_append _ _
    simp only [scriptStems, List.mem_cons, List.not_mem_nil, or_false] at hstem
    rcases hstem with rfl | rfl | rfl | rfl
    all_goals exact absurd hprefix (by decide +kernel)

section Frames

variable {n : Text} (hn : NotInstalled n)

include hn

theorem NotInstalled.stem_ne {stem : String} (hstem : stem ∈ scriptStems) :
    (stem ++ ".sh").toList ≠ n := by
  rintro rfl
  refine hn.1 stem hstem ?_
  rw [String.toList_append]
  exact List.prefix_append _ _

/-- A pass of `deploy()` over a node leaves entries of such names alone. -/
theorem contentOf_of_deployFiles {nodeid : Text} (havoid : ScriptsAvoid nodeid n) (d : Path)
    (h : (deployFiles m c nodeid).run s = (some (), t)) :
    contentOf t.fs (d ++ [n]) = contentOf s.fs (d ++ [n]) := by
  have hcopy : ∀ {stem : String}, stem ∈ scriptStems → ∀ {u v : Shell},
      (copyScript m c stem nodeid).run u = (some (), v) →
        contentOf v.fs (d ++ [n]) = contentOf u.fs (d ++ [n]) := by
    intro stem hstem u v huv
    refine contentOf_of_exec (not_touches_cp ?_ (fun _ => ?_) _ _ _) huv
    · rw [lastName_snoc]
      exact hn.stem_ne hstem
    · rw [lastName_script]
      exact havoid stem hstem
  have hchmod : ∀ {stem : String}, stem ∈ scriptStems → ∀ {u v : Shell},
      (chmodScript m c stem nodeid).run u = (some (), v) →
        contentOf v.fs (d ++ [n]) = contentOf u.fs (d ++ [n]) := by
    intro stem hstem u v huv
    refine contentOf_of_exec (not_touches_chmodX ?_ _ _ _) huv
    rw [lastName_script]
    exact havoid stem hstem
  obtain ⟨s₁, hconfs, s₂, hcreate, s₃, h₃, s₄, h₄, s₅, h₅, s₆, h₆, s₇, h₇, s₈, h₈, s₉, h₉, htls⟩ :=
    deployFiles_eq_some_iff.mp h
  have e₁ : contentOf s₁.fs (d ++ [n]) = contentOf s.fs (d ++ [n]) := by
    refine forEach_keeps_of_some (I := fun u => contentOf u.fs (d ++ [n]) = contentOf s.fs (d ++ [n]))
      (fun port _ u v hu huv => ?_) rfl hconfs
    refine (contentOf_of_exec (not_touches_cp (fun he => ?_) (fun hname => ?_) _ _ _) huv).trans hu
    · exact hn.2.1 (he ▸ lastName_nodeConfFile c nodeid port)
    · exact absurd (by simp [lastName]) hname.1
  have e₂ : contentOf s₂.fs (d ++ [n]) = contentOf s₁.fs (d ++ [n]) := by
    refine contentOf_of_exec (not_touches_cp ?_ (fun hname => ?_) _ _ _) hcreate
    · rw [lastName_inConfig]
      exact fun he => hn.2.2 he.symm
    · rw [Cluster.homeSlash, lastName_snoc] at hname
      exact absurd rfl hname.1
  have e₆ : contentOf s₆.fs (d ++ [n]) = contentOf s₅.fs (d ++ [n]) := by
    refine contentOf_of_exec (not_touches_chmodX ?_ _ _ _) h₆
    rw [Cluster.inHome, lastName_snoc]
    exact fun he => hn.2.2 he.symm
  have e₉ : contentOf s₉.fs (d ++ [n]) = contentOf s.fs (d ++ [n]) := by
    rw [hchmod (by simp [scriptStems]) h₉, hchmod (by simp [scriptStems]) h₈,
      hchmod (by simp [scriptStems]) h₇, e₆, hcopy (by simp [scriptStems]) h₅,
      hcopy (by simp [scriptStems]) h₄, hcopy (by simp [scriptStems]) h₃, e₂, e₁]
  rcases htls with ⟨-, s₁₀, h₁₀, h₁₁⟩ | ⟨-, rfl⟩
  · rw [hchmod (by simp [scriptStems]) h₁₁, hcopy (by simp [scriptStems]) h₁₀, e₉]
  · exact e₉

theorem contentOf_of_deployNodes {ids : List Text} (havoid : ∀ id ∈ ids, ScriptsAvoid id n) (d : Path)
    (h : (forEach ids (deployNode m c)).run s = (some (), t)) :
    contentOf t.fs (d ++ [n]) = contentOf s.fs (d ++ [n]) := by
  refine forEach_keeps_of_some (I := fun u => contentOf u.fs (d ++ [n]) = contentOf s.fs (d ++ [n]))
    (fun id hid u v hu huv => ?_) rfl h
  rcases deployNode_eq_some_iff.mp huv with ⟨-, hfiles⟩ | ⟨-, rfl⟩
  · exact (contentOf_of_deployFiles hn (havoid id hid) d hfiles).trans hu
  · exact hu

end Frames

theorem contentOf_of_deployInstall {p : Path} (hmake : MakeKeeps m p)
    (h : (deployInstall m c).run s = (some (), t)) : contentOf t.fs p = contentOf s.fs p := by
  obtain ⟨s₁, h₁, h₂⟩ := deployInstall_eq_some_iff.mp h
  rw [contentOf_of_cdMake hmake h₂, contentOf_of_cdMake hmake h₁]

/-- An entry that no copy of a node's files goes to is the same before the last copies. -/
theorem contentOf_of_deployBody_front {n : Text} (hn : NotInstalled n)
    (havoid : ∀ id, Listed m c id → ScriptsAvoid id n) {d : Path} (hmake : MakeKeeps m (d ++ [n]))
    {s₁ s₂ s₃ : Shell} (hmk : (exec m (.mkdirP (homeSubdirs c))).run s = (some (), s₁))
    (hnodes : (forEach (nodesAt m c s₁) (deployNode m c)).run s₁ = (some (), s₂))
    (hinstall : (deployInstall m c).run s₂ = (some (), s₃)) :
    contentOf s₃.fs (d ++ [n]) = contentOf s.fs (d ++ [n]) := by
  rw [contentOf_of_deployInstall hmake hinstall,
    contentOf_of_deployNodes hn (fun id hid => havoid id (listed_of_mem_nodesAt hid)) d hnodes,
    contentOf_of_exec rfl hmk]

/-! ## The last copies -/

/-- A copy into the home directory under another name leaves an entry alone. -/
theorem contentOf_of_cp_home_ne {name n : Text} (hne : name ≠ n) (d : Path)
    (h : (exec m (.cp (c.inConfig name) c.homeSlash)).run s = (some (), t)) :
    contentOf t.fs (d ++ [n]) = contentOf s.fs (d ++ [n]) := by
  refine contentOf_of_exec (not_touches_cp ?_ (fun hname => ?_) _ _ _) h
  · rwa [lastName_inConfig]
  · rw [Cluster.homeSlash, lastName_snoc] at hname
    exact absurd rfl hname.1

theorem HomeHas.of_cp {name other x : Text} (h : HomeHas c s name x) (hne : other ≠ name)
    (hrun : (exec m (.cp (c.inConfig other) c.homeSlash)).run s = (some (), t)) :
    HomeHas c t name x where
  resolve := resolve_of_grows (grows_of_exec (c := .cp _ _) trivial hrun) h.resolve
  content := (contentOf_of_cp_home_ne hne c.homeTarget hrun).trans h.content

/-- The certificates are not copied over the config directory. -/
structure CertsApart (c : Cluster) : Prop where
  isName : IsName c.ini.tlsCacertdir
  noSlash : '/' ∉ c.ini.tlsCacertdir
  apart : ¬ c.homeEntry c.ini.tlsCacertdir <+: c.configTarget
  home_ne : c.homeTarget ≠ c.configTarget

instance (c : Cluster) : Decidable (CertsApart c) :=
  decidable_of_iff (IsName c.ini.tlsCacertdir ∧ '/' ∉ c.ini.tlsCacertdir ∧
      ¬ c.homeEntry c.ini.tlsCacertdir <+: c.configTarget ∧ c.homeTarget ≠ c.configTarget)
    ⟨fun ⟨h1, h2, h3, h4⟩ => ⟨h1, h2, h3, h4⟩, fun h => ⟨h.isName, h.noSlash, h.apart, h.home_ne⟩⟩

theorem CertsApart.not_prefix (h : CertsApart c) (n : Text) :
    ¬ c.homeEntry c.ini.tlsCacertdir <+: c.configEntry n := by
  intro hp
  rcases List.prefix_concat_iff.mp hp with he | hp
  · rw [Cluster.homeEntry] at he
    exact h.home_ne (List.append_inj_left' he rfl)
  · exact h.apart hp

theorem contentOf_of_cpR (hhome : IsAbsolute c.clusterHomeDir) (hcerts : CertsApart c) (n : Text)
    (h : (exec m (.cpR (c.clusterConfigDir ++ pathWord c.ini.tlsCacertdir)
      c.tlsCacertDir)).run s = (some (), t)) :
    contentOf t.fs (c.configEntry n) = contentOf s.fs (c.configEntry n) := by
  have hword : pathWord c.ini.tlsCacertdir = [c.ini.tlsCacertdir] :=
    List.splitOn_eq_singleton hcerts.noSlash
  have htarget : target s.cwd c.tlsCacertDir = c.homeEntry c.ini.tlsCacertdir := by
    rw [Cluster.tlsCacertDir, hword, target_append_name hcerts.isName, hhome.target_eq (d := [])]
    rfl
  refine contentOf_of_exec ?_ h
  rw [Bool.eq_false_iff]
  intro htouch
  obtain ⟨p, hp, hbelow⟩ := List.any_eq_true.mp htouch
  have hprefix : p <+: c.configEntry n := List.isPrefixOf_iff_prefix.mp hbelow
  rw [Option.mem_toList, copyTreeTarget, hword, lastName_snoc] at hp
  have hpath := resolve_eq_target hp
  split at hpath
  · rw [target_append_name hcerts.isName, htarget] at hpath
    exact hcerts.not_prefix n ((List.prefix_append _ _).trans (hpath ▸ hprefix))
  · rw [htarget] at hpath
    exact hcerts.not_prefix n (hpath ▸ hprefix)

/-! ## The result -/

theorem contentOf_eq_none_iff {fs : FS} {p : Path} : contentOf fs p = none ↔ isFile fs p = false := by
  rw [contentOf, Option.map_eq_none_iff]
  unfold dataAt isFile
  split <;> simp_all

/-- What `deploy()` leaves in the home directory, against what it found in
    `$cluster_config_dir`. -/
structure Installed (c : Cluster) (s t : Shell) : Prop where
  allNodes : contentAt t.fs (c.inHome clusterAllNodes) = contentOf s.fs (c.configEntry clusterAllNodes)
  clusterEnv : contentAt t.fs (c.inHome "cluster_env.sh".toList) =
    contentOf s.fs (c.configEntry "cluster_env.sh".toList)
  authPass : (contentAt t.fs (c.inHome clusterAuthPass)).isSome = true

/-- **After a completed run** of `deploy()` the home directory has the files of
    `$cluster_config_dir`. -/
theorem deploy_installed (hhome : IsAbsolute c.clusterHomeDir)
    (hids : ∀ id, Listed m c id → SparesEnv id) (hmake : ∀ n, MakeKeeps m (c.configEntry n))
    (htls : isFile s.fs (c.configEntry clusterTlsNodes) = true → CertsApart c)
    (hrun : (deploy m c).run s = (some (), t)) : Installed c s t := by
  obtain ⟨u, hbody, hmarker⟩ := deploy_eq_some_iff.mp hrun
  obtain ⟨-, -, -, s₁, hmk, s₂, hnodes, s₃, hinstall, htail⟩ := deployBody_eq_some_iff.mp hbody
  obtain ⟨s₄, hcerts, s₅, henv, hauth⟩ := deployTail_eq_some_iff.mp htail
  have hfront : ∀ {n : Text}, NotInstalled n → (∀ id, Listed m c id → ScriptsAvoid id n) →
      contentOf s₃.fs (c.configEntry n) = contentOf s.fs (c.configEntry n) :=
    fun {n} hn havoid => contentOf_of_deployBody_front hn havoid (hmake n) hmk hnodes hinstall
  have htls₃ : testF s₃.fs s₃.cwd (c.inConfig clusterTlsNodes) = true → CertsApart c := by
    intro hthere
    obtain ⟨p, hp, hfile⟩ := testF_eq_true_iff.mp hthere
    rw [resolve_eq_target hp, target_inConfig c (by decide +kernel)] at hfile
    refine htls ?_
    by_contra hno
    rw [Bool.not_eq_true, ← contentOf_eq_none_iff, ← hfront (by decide +kernel)
      fun id _ => scriptsAvoid_of_not_sh id (by decide +kernel), contentOf_eq_none_iff, hfile] at hno
    cases hno
  have hlate : ∀ {n : Text}, n ≠ clusterTlsNodes →
      contentOf s₄.fs (c.configEntry n) = contentOf s₃.fs (c.configEntry n) := by
    intro n hn
    rcases hcerts with ⟨hthere, s₀, hcopy, hlist⟩ | ⟨-, rfl⟩
    · have h₁ := contentOf_of_cp_home_ne (Ne.symm hn) c.configTarget hlist
      exact h₁.trans (contentOf_of_cpR hhome (htls₃ hthere) n hcopy)
    · rfl
  obtain ⟨xenv, eenv, henv₅⟩ := homeHas_of_cp hhome (by decide +kernel) henv
  obtain ⟨xauth, -, hauth₆⟩ := homeHas_of_cp hhome (by decide +kernel) hauth
  obtain ⟨xall, eall, hall⟩ := homeHas_of_cp hhome (by decide +kernel) hmarker
  constructor
  · rw [hall.contentAt_eq, ← eall, ← hfront (by decide +kernel) fun id _ =>
      scriptsAvoid_of_not_sh id (by decide +kernel), ← hlate (by decide +kernel)]
    have h₁ := contentOf_of_cp_home_ne (n := clusterAllNodes) (by decide +kernel) c.configTarget hauth
    have h₂ := contentOf_of_cp_home_ne (n := clusterAllNodes) (by decide +kernel) c.configTarget henv
    exact h₁.trans h₂
  · have henv₇ := (henv₅.of_cp (by decide +kernel) hauth).of_cp (by decide +kernel) hmarker
    rw [henv₇.contentAt_eq, ← eenv, hlate (by decide +kernel),
      hfront (by decide +kernel) fun id hid => (hids id hid).scriptsAvoid]
  · have hauth₇ := hauth₆.of_cp (by decide +kernel) hmarker
    rw [hauth₇.contentAt_eq]
    rfl

end RedisCluster
