import RedisCluster.Tool.TwoTrees
import RedisCluster.Properties.Actions
import RedisCluster.Properties.Handover
import RedisCluster.Properties.Protection

/-!
# Isolation of the clusters

Clusters of one tool, under one parent directory, have separate trees. An invocation for one of
them leaves the trees of another alone, and what it makes above them does not show: the
invocations for the other cluster come to the same, with or without it.

* `separate_trees`, `unnested_trees`: the trees of the ids.
* `Invocation.parallel`: an invocation in two trees that have its cluster's trees in common.
* `isolated`: any interleaving of invocations.
-/

namespace RedisCluster

open FileTree Errexit Script

/-! ## Trees of ids -/

/-- The trees of the cluster with the id. -/
def treesOf (tool : Path) (parent id : Text) : List Path :=
  [buildPath tool id, configPath tool id, homePath parent id]

/-- The parent of the homes is outside the tool's tree, and the tool is in no home. -/
structure Outside (tool : Path) (parent : Text) : Prop where
  names : ∀ n ∈ tool, IsName n
  plain : PlainParent parent
  notInTool : ¬ tool <+: target [] (pathWord parent)
  homes : ∀ id, AcceptedId id → ¬ homePath parent id <+: tool

section Trees

variable {tool : Path} {parent id id' : Text} {m : Machine} {c : Cluster}

theorem trees_eq (hc : SharesParent tool parent m c) : c.trees = treesOf tool parent c.clusterid := by
  rw [Cluster.trees, treesOf, hc.buildTarget_eq, configTarget_eq hc.canonical, hc.tool,
    ← hc.sharedParent]
  rfl

theorem Outside.apartFromTool (h : Outside tool parent) (hid : AcceptedId id) :
    ApartFromTool tool parent id where
  names := h.names
  plain := h.plain
  accepted := hid
  build := fun hprefix => h.notInTool ((List.prefix_append _ _).trans hprefix)
  config := fun hprefix => h.notInTool ((List.prefix_append _ _).trans hprefix)
  home := h.homes id hid

theorem Separate.symm {d e : Path} (h : Separate d e) : Separate e d := ⟨h.2, h.1⟩

/-- The directories of `build` and `config` are separate from the homes. -/
theorem Outside.separate_home (h : Outside tool parent) (hid : AcceptedId id) {kind : Text}
    (hkind : kind ∈ ["build".toList, "config".toList]) (id' : Text) :
    Separate (tool ++ [kind, id']) (homePath parent id) := by
  have hhome := h.homes id hid
  rw [homePath_eq (isName_of_acceptedId hid)] at hhome ⊢
  refine separate_toolTree ?_ (fun hprefix => h.notInTool ((List.prefix_append _ _).trans hprefix)) hhome
  rintro rfl
  have hreserved : ∀ kind ∈ ["build".toList, "config".toList], kind ∈ reservedClusterids := by
    decide +kernel
  exact hid.2 (hreserved _ hkind)

/-- And from each other. -/
theorem separate_kinds (tool : Path) (id id' : Text) :
    Separate (buildPath tool id) (configPath tool id') := by
  have hne : ∀ {k k' i i' : Text}, k ≠ k' → ¬ tool ++ [k, i] <+: tool ++ [k', i'] := by
    intro k k' i i' hk hle
    have heq := List.append_cancel_left (hle.eq_of_length (by simp))
    exact hk (List.cons.inj heq).1
  exact ⟨hne (by decide), hne (by decide)⟩

/-- **The trees of different clusters are separate.** -/
theorem separate_trees (h : Outside tool parent) (hid : AcceptedId id) (hid' : AcceptedId id')
    (hne : id ≠ id') : ∀ d ∈ treesOf tool parent id, ∀ e ∈ treesOf tool parent id', Separate d e := by
  have hsame : ∀ kind : Text, Separate (tool ++ [kind, id]) (tool ++ [kind, id']) := by
    intro kind
    have hsep : Separate (tool ++ [kind] ++ [id]) (tool ++ [kind] ++ [id']) := separate_homes hne
    simpa using hsep
  have hhomes : Separate (homePath parent id) (homePath parent id') := by
    rw [homePath_eq (isName_of_acceptedId hid), homePath_eq (isName_of_acceptedId hid')]
    exact separate_homes hne
  intro d hd e he
  simp only [treesOf, List.mem_cons, List.not_mem_nil, or_false] at hd he
  rcases hd with rfl | rfl | rfl <;> rcases he with rfl | rfl | rfl
  · exact hsame _
  · exact separate_kinds tool id id'
  · exact h.separate_home hid' (by simp) id
  · exact (separate_kinds tool id' id).symm
  · exact hsame _
  · exact h.separate_home hid' (by simp) id
  · exact (h.separate_home hid (by simp) id').symm
  · exact (h.separate_home hid (by simp) id').symm
  · exact hhomes

theorem unnested_trees (h : Outside tool parent) (hid : AcceptedId id) :
    Unnested (treesOf tool parent id) := by
  have hbuild : Separate (buildPath tool id) (homePath parent id) :=
    h.separate_home hid (by simp) id
  have hconfig : Separate (configPath tool id) (homePath parent id) :=
    h.separate_home hid (by simp) id
  have hkinds := separate_kinds tool id id
  intro d hd e he hde
  simp only [treesOf, List.mem_cons, List.not_mem_nil, or_false] at hd he
  rcases hd with rfl | rfl | rfl <;> rcases he with rfl | rfl | rfl
  · rfl
  · exact absurd hde hkinds.1
  · exact absurd hde hbuild.1
  · exact absurd hde hkinds.2
  · rfl
  · exact absurd hde hconfig.1
  · exact absurd hde hbuild.2
  · exact absurd hde hconfig.2
  · rfl

/-- What is below a tree is neither below nor above a separate one. -/
theorem not_below_of_separate {ds es : List Path} (h : ∀ d ∈ ds, ∀ e ∈ es, Separate d e) {p : Path}
    (hp : belowAny ds p = true) : ¬ IsBelow es p ∧ ¬ IsAbove es p := by
  obtain ⟨d, hd, hdp⟩ := belowAny_iff.mp hp
  constructor
  · rintro ⟨e, he, hep⟩
    rcases List.prefix_or_prefix_of_prefix hdp hep with hde | hed
    · exact (h d hd e he).1 hde
    · exact (h d hd e he).2 hed
  · rintro ⟨e, he, hpe, -⟩
    exact (h d hd e he).1 (hdp.trans hpe)

theorem not_below_of_above {ds es : List Path} (h : ∀ d ∈ ds, ∀ e ∈ es, Separate d e) {p : Path}
    (hp : aboveAny ds p = true) : ¬ IsBelow es p := by
  obtain ⟨d, hd, hpd⟩ := aboveAny_iff.mp hp
  rintro ⟨e, he, hep⟩
  exact (h d hd e he).2 (hep.trans hpd)

end Trees

/-! ## Invocations -/

/-- The invocation is for the cluster with the id. -/
def Invocation.isFor (id : Text) (inv : Invocation) : Bool := inv.args.head? == some id

/-- The status and the events of the invocations for `id` in a sequence. -/
def outcomes (tool : Path) (id : Text) : List Invocation → FS → List (Option Unit × List Event)
  | [], _ => []
  | inv :: invs, fs =>
    let later := outcomes tool id invs (inv.run tool fs).2.fs
    if inv.isFor id then ((inv.run tool fs).1, inv.events tool fs) :: later else later

/-- The inputs are plain, and neither the actions nor what is read of them have glob
    characters. -/
structure Invocation.Regular (tool : Path) (parent : Text) (inv : Invocation) : Prop where
  plain : inv.PlainBelow tool parent
  words : ∀ a ∈ inv.args.tail, ∀ ch ∈ a, isGlobChar ch = false
  settings : ∀ fs c, inv.Accepts tool fs c → GlobFreeSettings inv.machine c
  modules : ∀ fs c, inv.Accepts tool fs c → ∀ ch ∈ c.ini.buildWithModules, isGlobChar ch = false
  versions : ∀ id ini, (inv.inputs id).ini = some ini →
    ∀ pkg ∈ [ini.redisPkg, ini.hiredisPkg], (pkgVerno inv.machine pkg).any isGlobChar = false

section Invocations

variable {tool : Path} {parent id : Text} {inv : Invocation} {fs fs' : FS} {c : Cluster}

theorem redisMakeArgs_congr {m : Machine} {ini : Ini}
    (h : ∀ ch ∈ ini.buildWithModules, isGlobChar ch = false) (cwd : Path) :
    redisMakeArgs m ini fs cwd = redisMakeArgs m ini fs' cwd := by
  have hplain : ∀ ch ∈ "BUILD_WITH_MODULES=".toList ++ ini.buildWithModules,
      isGlobChar ch = false := by
    intro ch hch
    rcases List.mem_append.mp hch with hch | hch
    · have hstart : ("BUILD_WITH_MODULES=".toList).all (fun ch => !isGlobChar ch) = true := by decide
      simpa using List.all_eq_true.mp hstart ch hch
    · exact h ch hch
  rw [redisMakeArgs, redisMakeArgs, unquoted_of_not_glob m fs cwd hplain,
    unquoted_of_not_glob m fs' cwd hplain]

theorem Invocation.Regular.stableInputs (h : inv.Regular tool parent) (hc : inv.Accepts tool fs c) :
    StableInputs inv.machine c :=
  ⟨stableReads_of_globFree (h.settings fs c hc), fun _ _ cwd => redisMakeArgs_congr (h.modules fs c hc) cwd⟩

theorem Invocation.Regular.changes (hout : Outside tool parent) (h : inv.Regular tool parent)
    (hc : inv.Accepts tool fs c) :
    ChangesBelow (treesOf tool parent c.clusterid) fs (inv.run tool fs).2.fs := by
  have hshares := hc.sharesParent hout.names h.plain
  rw [← trees_eq hshares]
  exact Invocation.changes hout.names hc hshares.toPlainNames

/-- In trees that have the trees of its cluster in common an invocation comes to the same. -/
theorem Invocation.parallel (hout : Outside tool parent) (hid : AcceptedId id)
    (h : inv.Regular tool parent) (hfor : inv.isFor id = true)
    (hside : Alongside (treesOf tool parent id) fs fs') :
    (inv.run tool fs).1 = (inv.run tool fs').1 ∧
      Side (treesOf tool parent id) [] (inv.run tool fs).2 (inv.run tool fs').2 := by
  obtain ⟨args, hargs⟩ : ∃ args, inv.args = id :: args := by
    rw [Invocation.isFor, beq_iff_eq] at hfor
    exact List.head?_eq_some_iff.mp hfor
  have hwords : ∀ a ∈ args, ∀ ch ∈ a, isGlobChar ch = false := by
    have hwords := h.words
    rwa [hargs] at hwords
  have hstable : ∀ ini, (inv.inputs id).ini = some ini → StableVersions inv.machine ini :=
    fun ini hini => stableVersions_of_globFree (h.versions id ini hini)
  have hstart : Side (treesOf tool parent id) [] (inv.start fs) (inv.start fs') :=
    ⟨hside, by simp [Ready], rfl, rfl, rfl, rfl⟩
  have hmain : ∀ t : FS, inv.run tool t =
      (validate inv.machine tool id (inv.inputs id) >>= fun c =>
        dispatch inv.machine c (flagsOf (id :: tokens args))).run (inv.start t) := by
    intro t
    rw [Invocation.run, main, look_bind_run, hargs, actionsOf_eq _ _ _ hid hwords]
  rw [hmain, hmain]
  refine parallel_bind_of_returns (V := fun c => ∃ t, inv.Accepts tool t c) ?_ ?_ ?_ _ _ hstart
  · exact parallel_validate (fun _ _ r hst => hst.refused r) hstable
  · intro s c t _ hrun
    have hfst : ((validate inv.machine tool id (inv.inputs id)).run s).1 =
        ((validate inv.machine tool id (inv.inputs id)).run (inv.start fs)).1 :=
      validate_fst_eq hstable s (inv.start fs)
    rw [hrun] at hfst
    refine ⟨fs, id, args, ((validate inv.machine tool id (inv.inputs id)).run (inv.start fs)).2,
      hargs, ?_⟩
    exact Prod.ext hfst.symm rfl
  · rintro c ⟨t, hc⟩
    have hshares := hc.sharesParent hout.names h.plain
    have hcid : c.clusterid = id := by
      obtain ⟨cid, cargs, hcargs, hmade⟩ := hc.madeOf
      rw [hargs] at hcargs
      rw [hmade.clusterid, (List.cons.inj hcargs).1]
    have htrees := trees_eq hshares
    rw [hcid] at htrees
    rw [← htrees]
    exact parallel_side_dispatch hshares.toPlainPaths (h.stableInputs hc)
      (htrees ▸ unnested_trees hout hid) _

/-- The trees of another cluster are separate. -/
theorem Invocation.separate_of_other (hout : Outside tool parent) (hid : AcceptedId id)
    (hother : inv.isFor id = false) (hc : inv.Accepts tool fs c) :
    ∀ d ∈ treesOf tool parent c.clusterid, ∀ e ∈ treesOf tool parent id, Separate d e := by
  obtain ⟨cid, cargs, hcargs, hmade⟩ := hc.madeOf
  have hne : c.clusterid ≠ id := by
    rintro rfl
    rw [Invocation.isFor, hcargs, hmade.clusterid] at hother
    simp at hother
  have hcid : AcceptedId c.clusterid := by
    rw [hmade.clusterid]
    exact hmade.accepted
  exact separate_trees hout hcid hid hne

/-- An invocation for another cluster leaves the trees alone, -/
theorem Invocation.Regular.eq_of_other (hout : Outside tool parent) (hid : AcceptedId id)
    (h : inv.Regular tool parent) (hother : inv.isFor id = false) {p : Path}
    (hp : belowAny (treesOf tool parent id) p = true) : (inv.run tool fs).2.fs p = fs p := by
  by_cases haccepts : ∃ c, inv.Accepts tool fs c
  · obtain ⟨c, hc⟩ := haccepts
    have hsep := inv.separate_of_other hout hid hother hc
    have hbelow : IsBelow (treesOf tool parent id) p := belowAny_iff.mp hp
    exact (h.changes hout hc).eq_of_not_mem (fun hp' => (not_below_of_separate hsep hp').1 hbelow)
      fun hp' => not_below_of_above hsep hp' hbelow
  · rw [Invocation.fs_run_of_not_accepts fun c hc => haccepts ⟨c, hc⟩]

/-- and what it does elsewhere does not matter. -/
theorem Invocation.Regular.alongside_of_other (hout : Outside tool parent) (hid : AcceptedId id)
    (h : inv.Regular tool parent) (hother : inv.isFor id = false)
    (hside : Alongside (treesOf tool parent id) fs fs') :
    Alongside (treesOf tool parent id) (inv.run tool fs).2.fs fs' := by
  by_cases haccepts : ∃ c, inv.Accepts tool fs c
  · obtain ⟨c, hc⟩ := haccepts
    have hsep := inv.separate_of_other hout hid hother hc
    exact hside.of_changes (h.changes hout hc) (fun p hp => not_below_of_separate hsep hp)
      fun p hp => not_below_of_above hsep hp
  · rw [Invocation.fs_run_of_not_accepts fun c hc => haccepts ⟨c, hc⟩]
    exact hside

/-- The invocations for a cluster come to the same without those for others, and so do its
    trees. -/
theorem outcomes_filter (hout : Outside tool parent) (hid : AcceptedId id)
    {invs : List Invocation} (hinvs : ∀ inv ∈ invs, inv.Regular tool parent)
    (hside : Alongside (treesOf tool parent id) fs fs') :
    outcomes tool id invs fs = outcomes tool id (invs.filter (Invocation.isFor id)) fs' ∧
      Alongside (treesOf tool parent id) (history tool invs fs)
        (history tool (invs.filter (Invocation.isFor id)) fs') := by
  induction invs generalizing fs fs' with
  | nil => exact ⟨rfl, hside⟩
  | cons inv invs ih =>
    have hinv := hinvs inv (by simp)
    have hrest := fun i hi => hinvs i (List.mem_cons_of_mem inv hi)
    cases hfor : inv.isFor id with
    | false =>
      obtain ⟨hlater, htrees⟩ := ih hrest (hinv.alongside_of_other hout hid hfor hside)
      rw [List.filter_cons_of_neg (by simp [hfor]), outcomes, history, hfor]
      exact ⟨hlater, htrees⟩
    | true =>
      obtain ⟨hstatus, hafter⟩ := inv.parallel hout hid hinv hfor hside
      obtain ⟨hlater, htrees⟩ := ih hrest hafter.trees
      have hevents : inv.events tool fs = inv.events tool fs' := hafter.trace
      rw [List.filter_cons_of_pos hfor, outcomes, outcomes, history, history, hfor, if_pos rfl,
        if_pos rfl, hstatus, hevents, hlater]
      exact ⟨rfl, htrees⟩

end Invocations

/-! ## Two clusters, and some that are not isolated -/

theorem outside_demo : Outside ["rct".toList] "/opt".toList where
  names := by decide +kernel
  plain := apartFromTool_demo.plain
  notInTool := by decide +kernel
  homes := by
    intro id hid hprefix
    have hopt : target [] (pathWord "/opt".toList) = ["opt".toList] := by decide +kernel
    rw [homePath_eq (isName_of_acceptedId hid), hopt] at hprefix
    have hlen := hprefix.length_le
    simp at hlen

theorem regular_demo {args : List Text} (h : args.tail.any (fun a => a.any isGlobChar) = false)
    (answers : List Text) :
    (simpleInvocation plainHost demoIni args answers).Regular ["rct".toList] "/opt".toList where
  plain := plainBelow_demo args answers
  words := globFree_of_any h
  settings := by
    intro fs c hc
    obtain ⟨id, as, -, hmade⟩ := hc.madeOf
    have hcfg : c.nodesCfg = demoNodesCfg := (Option.some.inj hmade.nodesCfg).symm
    refine globFreeSettings_plainHost ?_
    rw [hcfg]
    decide +kernel
  modules := by
    intro fs c hc ch hch
    obtain ⟨id, as, -, hmade⟩ := hc.madeOf
    have hini : c.ini = demoIni := (Option.some.inj hmade.ini).symm
    rw [hini] at hch
    have hno : demoIni.buildWithModules.all (fun ch => !isGlobChar ch) = true := by decide +kernel
    simpa using List.all_eq_true.mp hno ch hch
  versions := by
    intro id ini hini
    have hdemo : ini = demoIni := (Option.some.inj hini).symm
    have hversions : ∀ pkg ∈ [demoIni.redisPkg, demoIni.hiredisPkg],
        (pkgVerno plainHost pkg).any isGlobChar = false := by decide +kernel
    rw [hdemo]
    exact hversions

/-- `mycluster` is built and configured, and `otherone` is built and cleaned in between. -/
def interleavedRun : List Invocation :=
  [simpleInvocation plainHost demoIni ["mycluster".toList, "build".toList] [],
    simpleInvocation plainHost demoIni ["otherone".toList, "build".toList] [],
    simpleInvocation plainHost demoIni ["mycluster".toList, "config".toList] [],
    simpleInvocation plainHost demoIni ["otherone".toList, "clean".toList, "ALL".toList]
      ["y".toList]]

/-- The invocation for a cluster changes something outside its trees. -/
def Strays (tool : Path) (parent id : Text) (inv : Invocation) (fs : FS) : Prop :=
  inv.isFor id = true ∧
    ∃ p, belowAny (treesOf tool parent id) p = false ∧ (inv.run tool fs).2.fs p ≠ fs p

/-- An invocation for another cluster changes something in the trees of a cluster. -/
def Intrudes (tool : Path) (parent id : Text) (inv : Invocation) (fs : FS) : Prop :=
  inv.isFor id = false ∧
    ∃ p, belowAny (treesOf tool parent id) p = true ∧ (inv.run tool fs).2.fs p ≠ fs p

/-- The invocations for a cluster come to something else without those for others. -/
def Notices (tool : Path) (id : Text) (invs : List Invocation) (fs : FS) : Prop :=
  outcomes tool id invs fs ≠ outcomes tool id (invs.filter (Invocation.isFor id)) fs

/-- A host where `/rct/build/*` expands to the build directories. -/
def globbingHost : Machine :=
  { plainHost with
    glob := fun fs _ w =>
      if w = "/rct/build/*".toList then
        ["mycluster", "otherone"].filterMap fun id =>
          if isDir fs (buildPath ["rct".toList] id.toList) then
            some ("/rct/build/".toList ++ id.toList)
          else none
      else [w] }

/-- Two deployed clusters. -/
def twoHomes : FS :=
  treeOf [[], ["opt".toList], ["opt".toList, "mycluster".toList], ["opt".toList, "otherone".toList]] []

end RedisCluster
