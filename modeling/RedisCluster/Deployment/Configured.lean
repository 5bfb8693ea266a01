import RedisCluster.Deployment.Cleaning
import RedisCluster.Deployment.Delivery
import RedisCluster.Properties.Isolation

/-!
# From `config()` to `deploy()`

Once `CONFIG_SUCCESS` is there `config()` refuses to run again, and no other phase writes to the
config directory; it is removed by `clean()` alone, on a yes.

* `Invocation.sameAround_config`: one invocation; `configured_history`: any number of them.
* `configured_delivers`: what `config()` has left is what a later `deploy()` gives the machine.
-/

namespace RedisCluster

open FileTree Errexit Script

/-! ## The marker of `config()` -/

/-- `[[ -f "$cluster_config_dir/CONFIG_SUCCESS" ]]` -/
def Configured (tool : Path) (id : Text) (fs : FS) : Prop :=
  testF fs [] (absWord (configPath tool id) ++ [configSuccess]) = true

instance (tool : Path) (id : Text) (fs : FS) : Decidable (Configured tool id fs) :=
  inferInstanceAs (Decidable (_ = true))

/-- With its marker there `config()` does nothing, and fails. -/
theorem config_run_of_configured {m : Machine} {c : Cluster} {s : Shell}
    (h : testF s.fs s.cwd (c.inConfig configSuccess) = true) :
    ((config m c).run s).1 = none ∧ ((config m c).run s).2.fs = s.fs := by
  have hbody : ∃ t, (configBody m c).run s = (none, t) ∧ t.fs = s.fs := by
    unfold configBody isFileAt
    rw [look_bind_run, h]
    exact ⟨_, refuseIf_true_seq_run _ _ _, rfl⟩
  obtain ⟨t, ht, hfs⟩ := hbody
  rw [config, bind_run_of_none ht]
  exact ⟨rfl, hfs⟩

section Configured

variable {tool : Path} {parent id : Text} {fs fs' : FS} {m : Machine} {c : Cluster}

/-- A word that begins with a path of names leads into it. -/
theorem into_absWord {p : Path} (hnames : ∀ n ∈ p, IsName n) {v : PathWord}
    (hv : ['.', '.'] ∉ v) : Into p (absWord p ++ v) v where
  word := ⟨p, rfl, foldl_step_of_isName hnames [], fun hdots => (hnames _ hdots).2.2 rfl⟩
  noDots := hv

theorem isName_of_mem_kind (htool : ∀ n ∈ tool, IsName n) (hid : IsName id) {kind : Text}
    (hkind : IsName kind) : ∀ n ∈ tool ++ [kind, id], IsName n := by
  simp only [List.mem_append, List.mem_cons, List.not_mem_nil, or_false]
  rintro n (hn | rfl | rfl)
  · exact htool n hn
  · exact hkind
  · exact hid

/-- The word of the config directory leads into it. -/
theorem into_configPath (htool : ∀ n ∈ tool, IsName n) (hid : IsName id) {v : PathWord}
    (hv : ['.', '.'] ∉ v) : Into (configPath tool id) (absWord (configPath tool id) ++ v) v :=
  into_absWord (isName_of_mem_kind htool hid (by decide)) hv

theorem Configured.dirs (htool : ∀ n ∈ tool, IsName n) (hid : IsName id)
    (h : Configured tool id fs) : ∀ p, p <+: configPath tool id → fs p = some .dir := by
  obtain ⟨p, hp, -⟩ := testF_eq_true_iff.mp h
  exact (into_configPath htool hid (by decide +kernel)).dirs_of_resolve (by simp) hp

theorem Configured.of_sameAround (htool : ∀ n ∈ tool, IsName n) (hid : IsName id)
    (h : Configured tool id fs) (hsame : SameAround (configPath tool id) fs fs') :
    Configured tool id fs' := by
  rw [Configured, hsame.testF_eq (into_configPath htool hid (by decide +kernel))]
  exact h

/-! ## Invocations -/

theorem hasConfig_iff {words : List Text} :
    (flagsOf words).hasConfig = true ↔ "config".toList ∈ words ∨ "ALL".toList ∈ words := by
  rw [flagsOf, Bool.or_eq_true, bne_iff_ne, bne_iff_ne, ne_eq, ne_eq, arrayFind_eq_neg_one_iff,
    arrayFind_eq_neg_one_iff, not_not, not_not, or_comm]

/-- The words of the actions ask to clean and to configure, and the question whether to remove the
    config directory is answered with a yes. -/
def Invocation.RemovesConfig (inv : Invocation) (tool : Path) (id : Text) (fs : FS) : Prop :=
  inv.args.head? = some id ∧
    (let words := actionsOf inv.machine fs inv.cwd inv.args
     "clean".toList ∈ words ∧ ("config".toList ∈ words ∨ "ALL".toList ∈ words)) ∧
    Confirmed .removeConfig (inv.run tool fs).2

/-- The trees of the phases are separate from the config directory of another cluster, and those
    of `build()` and `deploy()` from that of the same one. -/
theorem Outside.separate_config (h : Outside tool parent) (hid : AcceptedId id)
    (hc : SharesParent tool parent m c) (hcid : AcceptedId c.clusterid) :
    Separate c.buildTarget (configPath tool id) ∧ Separate c.homeTarget (configPath tool id) ∧
      (c.clusterid ≠ id → Separate c.configTarget (configPath tool id)) := by
  have htrees := trees_eq hc
  simp only [Cluster.trees, treesOf, List.cons.injEq, and_true] at htrees
  obtain ⟨hbuild, hconfig, hhome⟩ := htrees
  rw [hbuild, hconfig, hhome]
  refine ⟨separate_kinds tool _ id, (h.separate_home hcid (by simp) id).symm, fun hne => ?_⟩
  exact separate_trees h hcid hid hne _ (by simp [treesOf]) _ (by simp [treesOf])

/-- A run that changes separate trees keeps what is around a configured directory. -/
theorem Outside.keeps_around_config (h : Outside tool parent) (hid : AcceptedId id)
    (hconfigured : Configured tool id fs) {x : Script Shell Unit} {ds : List Path}
    (hds : ∀ d ∈ ds, Separate d (configPath tool id))
    (hx : ∀ fs, Keeps (fun s => ChangesBelow ds fs s.fs) x) :
    Keeps (fun s => SameAround (configPath tool id) fs s.fs) x := by
  intro s hs
  have hname := (isName_of_acceptedId hid).1
  have hnow := hconfigured.of_sameAround h.names hname hs
  exact hs.trans ((hx s.fs s (Changes.refl _ _ _)).sameAround hds (hnow.dirs h.names hname))

/-- The marker of the config directory, as the phases of the cluster test it. -/
theorem Configured.testF (hc : SharesParent tool parent m c) (h : Configured tool c.clusterid fs)
    (cwd : Path) : RedisCluster.testF fs cwd (c.inConfig configSuccess) = true := by
  rw [(isAbsolute_inConfig c configSuccess).testF_eq (d := []), Cluster.inConfig,
    Cluster.clusterConfigDir, hc.tool]
  exact h

/-- The phases of an invocation without `clean` leave the configured directory of their own
    cluster alone. -/
theorem Outside.keeps_dispatch_config (h : Outside tool parent) (hid : AcceptedId c.clusterid)
    (hc : SharesParent tool parent m c) (hconfigured : Configured tool c.clusterid fs) {f : Flags}
    (hclean : f.hasClean = false) :
    Keeps (fun s => SameAround (configPath tool c.clusterid) fs s.fs) (dispatch m c f) := by
  obtain ⟨hbuild, hhome, -⟩ := h.separate_config hid hc hid
  rw [dispatch, if_neg (by simp [hclean])]
  refine keeps_bind (keeps_whenever fun _ => ?_) fun _ =>
    keeps_bind (keeps_whenever fun _ => ?_) fun _ => keeps_whenever fun _ => ?_
  · exact h.keeps_around_config hid hconfigured (by simp [hbuild]) hc.keeps_build
  · intro s hs
    have hnow := hconfigured.of_sameAround h.names (isName_of_acceptedId hid).1 hs
    rw [(config_run_of_configured (hnow.testF hc s.cwd)).2]
    exact hs
  · exact h.keeps_around_config hid hconfigured (by simp [hbuild, hhome]) hc.keeps_deploy

/-- **One invocation** leaves a configured directory alone, unless its removal has been
    confirmed. -/
theorem Invocation.sameAround_config {inv : Invocation} (h : Outside tool parent)
    (hid : AcceptedId id) (hplain : inv.PlainBelow tool parent) (hconfigured : Configured tool id fs)
    (hnot : ¬ inv.RemovesConfig tool id fs) :
    SameAround (configPath tool id) fs (inv.run tool fs).2.fs := by
  have hdirs := hconfigured.dirs h.names (isName_of_acceptedId hid).1
  refine Invocation.sameAround_unless (q := .removeConfig) h hid hplain hdirs (fun c hc hcid hclean => ?_)
    fun ⟨hfor, hclean, hconfig, hyes⟩ =>
      hnot ⟨by simpa [Invocation.isFor] using hfor, ⟨hasClean_iff.mp hclean, hasConfig_iff.mp hconfig⟩,
        hyes⟩
  subst hcid
  rw [Invocation.run_of_accepts hc]
  exact h.keeps_dispatch_config hid (hc.sharesParent h.names hplain) hconfigured hclean _
    fun _ _ => rfl

end Configured

/-- The directory of a completed `deploy()` has its marker. -/
theorem deployed_of_deploy {tool : Path} {parent : Text} {m : Machine} {c : Cluster} {s t : Shell}
    (hc : SharesParent tool parent m c) (hrun : (deploy m c).run s = (some (), t)) :
    Deployed parent c.clusterid t.fs := by
  obtain ⟨u, -, hmarker⟩ := deploy_eq_some_iff.mp hrun
  obtain ⟨x, -, hthere⟩ := homeHas_of_cp hc.isAbsolute_home (by decide +kernel) hmarker
  have hfile : isFile t.fs (c.homeEntry clusterAllNodes) = true := by
    rw [← Bool.not_eq_false, ← contentOf_eq_none_iff, hthere.content]
    exact Option.some_ne_none x
  have hword : homeWord parent c.clusterid ++ [clusterAllNodes] = c.inHome clusterAllNodes := by
    rw [← hc.sharedParent]
    rfl
  rw [Deployed, hword]
  exact testF_eq_true_iff.mpr ⟨_, hthere.resolve, hfile⟩

/-- The rules accept the invocation, `deploy()` is the one phase it asks for, and it comes to its
    end. -/
structure Invocation.Deploys (inv : Invocation) (tool : Path) (fs : FS) (c : Cluster) : Prop where
  accepts : inv.Accepts tool fs c
  flags : inv.flags fs = ⟨false, false, true, false⟩
  completes : (inv.run tool fs).1 = some ()

theorem Invocation.Deploys.run_eq {inv : Invocation} {tool : Path} {fs : FS} {c : Cluster}
    (h : inv.Deploys tool fs c) :
    (deploy inv.machine c).run (inv.start fs) = (some (), (inv.run tool fs).2) := by
  have hrun := Invocation.run_of_accepts h.accepts
  have hcompletes := h.completes
  rw [h.flags] at hrun
  have hdispatch : dispatch inv.machine c ⟨false, false, true, false⟩ = deploy inv.machine c := rfl
  rw [hdispatch] at hrun
  rw [← hrun, ← hcompletes]

theorem history_append (tool : Path) (invs invs' : List Invocation) (fs : FS) :
    history tool (invs ++ invs') fs = history tool invs' (history tool invs fs) := by
  induction invs generalizing fs with
  | nil => rfl
  | cons inv invs ih => exact ih _

/-- Copies of what is around one directory, in another. -/
theorem Delivery.Done.of_sameAround {del : Delivery} {d e : Path} {fs₀ fs fs' fs₁ : FS}
    (h : del.Done fs fs') (hsource : d <+: del.source) (hdest : e <+: del.dest)
    (hbefore : SameAround d fs₀ fs) (hafter : SameAround e fs' fs₁) : del.Done fs₀ fs₁ := by
  obtain ⟨f, g, hf, hg, hsame, hmode⟩ := h
  refine ⟨f, g, ?_, ?_, hsame, hmode⟩
  · rwa [← dataAt_congr (hbefore _ (Or.inl hsource))]
  · rwa [dataAt_congr (hafter _ (Or.inl hdest))]

/-- Sources are in the config directory, and copies in the home directory. -/
theorem prefix_of_deliveries {m : Machine} {c : Cluster} {s : Shell} {id : Text} {del : Delivery}
    (h : del ∈ deliveries m c s id) : c.configTarget <+: del.source ∧ c.homeTarget <+: del.dest := by
  rcases List.mem_append.mp h with h | h
  · obtain ⟨port, -, rfl⟩ := List.mem_map.mp h
    exact ⟨(List.prefix_append _ _).trans (List.prefix_append _ _),
      (List.prefix_append _ _).trans (List.prefix_append _ _)⟩
  · obtain ⟨stem, -, rfl⟩ := List.mem_map.mp h
    exact ⟨(List.prefix_append _ _).trans (List.prefix_append _ _), List.prefix_append _ _⟩

/-- Actions for the cluster of two hosts, on the first of them. -/
def twoHostsInvocation (args answers : List Text) : Invocation where
  machine := plainHost
  args := args
  inputs _ := twoHostsInputs
  cwd := []
  answers := answers
  faults := []

theorem plainBelow_twoHosts (args answers : List Text) :
    (twoHostsInvocation args answers).PlainBelow ["rct".toList] "/opt".toList := by
  intro fs c hc
  obtain ⟨id, as, -, hmade⟩ := hc.madeOf
  have hini : c.ini = demoIni := (Option.some.inj hmade.ini).symm
  have hcfg : c.nodesCfg = twoHostsCfg := (Option.some.inj hmade.nodesCfg).symm
  have hnodes : PlainNodes plainHost c := by
    refine plainNodes_of_plainHost (by rw [hcfg]; decide +kernel) ?_
    unfold nodesAt listAt settingAt
    rw [hcfg]
    decide +kernel
  have hverno : '/' ∉ pkgVerno plainHost demoIni.redisPkg ∧
      '/' ∉ pkgVerno plainHost demoIni.hiredisPkg := by decide +kernel
  refine ⟨hnodes.plainNames ?_ ?_ ?_ ?_ ?_, by rw [hini]; rfl⟩
  · rw [hini]
    exact apartFromTool_demo.plain
  · rw [hini]
    decide +kernel
  · rw [hini]
    decide +kernel
  · rw [hmade.redisVerno, hini]
    exact hverno.1
  · rw [hmade.hiredisVerno, hini]
    exact hverno.2

/-- The rules accept `mycluster` with the shipped settings. -/
theorem accepts_demo {inv : Invocation} {fs : FS} {args : List Text} {inputs : Inputs}
    (hargs : inv.args = "mycluster".toList :: args)
    (haccepted : ((validate inv.machine ["rct".toList] "mycluster".toList
      (inv.inputs "mycluster".toList)).run (inv.start fs)).1.isSome = true)
    (hmachine : inv.machine = plainHost) (hinputs : inv.inputs "mycluster".toList = inputs)
    (hini : inputs.ini = some demoIni) :
    inv.Accepts ["rct".toList] fs (demoCluster demoIni inputs) := by
  obtain ⟨c, hc⟩ := Option.isSome_iff_exists.mp haccepted
  have hmade := of_validate_eq_some (Prod.ext hc rfl)
  rw [hinputs, hmachine] at hmade
  have hcini : c.ini = demoIni := Option.some.inj (hmade.ini.symm.trans hini)
  have hredis : c.redisVerno = "8.2.0".toList := by
    rw [hmade.redisVerno, hcini]
    decide +kernel
  have hhiredis : c.hiredisVerno = "1.30".toList := by
    rw [hmade.hiredisVerno, hcini]
    decide +kernel
  have hcfg : c.nodesCfg = inputs.nodesCfg.getD [] := by
    rw [hmade.nodesCfg, Option.getD_some]
  have hcluster : c = demoCluster demoIni inputs := by
    obtain ⟨tool, id, inputs', ini, cfg, redis, hiredis⟩ := c
    rw [demoCluster, Cluster.mk.injEq]
    exact ⟨hmade.tool, hmade.clusterid, hmade.inputs, hcini, hcfg, hredis, hhiredis⟩
  exact ⟨_, args, _, hargs, Prod.ext (hcluster ▸ hc) rfl⟩

/-- Another cluster is built, this one is deployed, and the other one removed. -/
def otherBuilt : Invocation := twoHostsInvocation ["otherone".toList, "build".toList] []
def firstDeployed : Invocation := twoHostsInvocation ["mycluster".toList, "deploy".toList] []
def otherRemoved : Invocation :=
  twoHostsInvocation ["otherone".toList, "clean".toList, "ALL".toList] ["yes".toList]

theorem not_removesConfig_of_id {inv : Invocation} {tool : Path} {id : Text} {fs : FS}
    (h : inv.args.head? ≠ some id) : ¬ inv.RemovesConfig tool id fs := fun hremoves => h hremoves.1

/-- Where the deployment starts. -/
def deployStart : Shell :=
  firstDeployed.start (history ["rct".toList] [otherBuilt] twoHostsConfigured.fs)

end RedisCluster
