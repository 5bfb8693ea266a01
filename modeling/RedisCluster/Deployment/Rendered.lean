import RedisCluster.Deployment.Delivery

/-!
# What `config()` renders

The files of the nodes after a completed `config()`: each has what its own pipeline prints, as no
other step writes to it.

* `NodeFile`: a file of a node, and the pipeline that writes it.
* `ConfigAct.of_touches`: what touches such a file is its pipeline.
* `config_rendered`: the content of the confs and scripts of all nodes.
-/

namespace RedisCluster

open Errexit Script

/-- The scripts of a node, and the pipelines that write them. -/
def nodeScripts (c : Cluster) (n : Node) : List (String × Pipeline) :=
  [("start_redis", nodeScript c .startScript "start_redis.sh.0" n),
    ("shutdown_redis", nodeScript c .shutdownScript "shutdown_redis.sh.0" n),
    ("connect_redis", connectScript c n)]

/-- The pipeline `p` writes the file `name` of the node `id`. -/
inductive NodeFile (m : Machine) (c : Cluster) : Text → Text → Pipeline → Prop
  | conf {n : Node} {port pass : Text} (hn : IsNode m c n) (hport : port ∈ n.ports)
      (hpass : c.redisAuthPass = some pass) :
      NodeFile m c n.nodeid (Cluster.confName n.nodeid port)
        (confPipeline c n.conf (n.instance pass port) none)
  | script {n : Node} {stem : String} {p : Pipeline} (hn : IsNode m c n)
      (hp : (stem, p) ∈ nodeScripts c n) : NodeFile m c n.nodeid (stem ++ ".sh").toList p

section NodeFiles

variable {m : Machine} {c : Cluster} {id name : Text} {p p' : Pipeline} {n : Node} {port : Text}
  {s t : Shell}

theorem StableReads.eq_settingAt (h : StableReads m c) (s : Shell) {k v : Text}
    (hv : IsSetting m c id k v) : v = settingAt m c s id k := by
  obtain ⟨fs, cwd, rfl⟩ := hv
  rw [settingAt, h.setting fs cwd s.fs s.cwd]

/-- A node is described in one way. -/
theorem IsNode.eq_nodeAt (h : StableReads m c) (hn : IsNode m c n) (s : Shell) :
    n = nodeAt m c s n.nodeid := by
  have hconf := h.eq_settingAt s hn.conf
  have hhost := h.eq_settingAt s hn.host
  have haddrs := h.eq_listAt s hn.addrs
  have hports := h.eq_listAt s hn.ports
  have htls := hn.tls
  obtain ⟨id, conf, host, addrs, ports, tls⟩ := n
  exact RedisCluster.Node.mk.injEq .. ▸ ⟨rfl, hconf, hhost, haddrs, hports, htls⟩

theorem sh_ne_confName (stem : String) (id port : Text) :
    (stem ++ ".sh").toList ≠ Cluster.confName id port := by
  intro heq
  have hsh : ".sh".toList <:+ (stem ++ ".sh").toList := by simp
  have hconf : ".conf".toList <:+ (stem ++ ".sh").toList := heq ▸ List.suffix_append _ _
  rcases List.suffix_or_suffix_of_suffix hsh hconf with hs | hs
  · exact absurd hs (by decide)
  · exact absurd hs (by decide)

/-- A node has one script of a name. -/
theorem eq_of_mem_nodeScripts {stem stem' : String} (hp : (stem, p) ∈ nodeScripts c n)
    (hp' : (stem', p') ∈ nodeScripts c n) (hname : (stem ++ ".sh").toList = (stem' ++ ".sh").toList) :
    p = p' := by
  simp only [nodeScripts, List.mem_cons, Prod.mk.injEq, List.not_mem_nil, or_false] at hp hp'
  rcases hp with ⟨rfl, rfl⟩ | ⟨rfl, rfl⟩ | ⟨rfl, rfl⟩ <;>
    rcases hp' with ⟨rfl, rfl⟩ | ⟨rfl, rfl⟩ | ⟨rfl, rfl⟩ <;>
      first | rfl | exact absurd hname (by decide)

/-- **One pipeline a file**. -/
theorem NodeFile.eq (h : PlainNodes m c) (hp : NodeFile m c id name p)
    (hp' : NodeFile m c id name p') : p = p' := by
  have hnode : ∀ {n n' : Node}, IsNode m c n → IsNode m c n' → n.nodeid = n'.nodeid → n = n' := by
    intro n n' hn hn' heq
    rw [hn.eq_nodeAt h.stable demoShell, hn'.eq_nodeAt h.stable demoShell, heq]
  generalize hid : id = id' at hp'
  generalize hname : name = name' at hp'
  cases hp with
  | conf hn hport hpass =>
    cases hp' with
    | conf hn' hport' hpass' =>
      obtain rfl := hnode hn hn' hid
      obtain ⟨-, rfl⟩ := confName_injective (h.ports _ hn.listed _ hn.ports _ hport)
        (h.ports _ hn.listed _ hn.ports _ hport') hname
      rw [Option.some.inj (hpass.symm.trans hpass')]
    | script => exact absurd hname.symm (sh_ne_confName _ _ _)
  | script hn hmem =>
    cases hp' with
    | conf => exact absurd hname (sh_ne_confName _ _ _)
    | script hn' hmem' =>
      obtain rfl := hnode hn hn' hid
      exact eq_of_mem_nodeScripts hmem hmem' hname

/-! ## Who writes them -/

/-- An entry of the config directory is no file of a node. -/
theorem configEntry_ne_nodeFile (c : Cluster) (n id name : Text) :
    c.configEntry n ≠ c.configEntry id ++ [name] := by
  intro heq
  have hlen := congrArg List.length heq
  simp [Cluster.configEntry] at hlen

/-- What touches a file of a node is its pipeline. -/
theorem ConfigAct.of_touches (h : PlainNodes m c) (hid : PlainId id) {a : Act} {cm : Cmd}
    (ha : WithMarker (ConfigAct m c) (configMarker m c) a) (hcm : a.Issues cm) {cwd : Path} {fs : FS}
    (htouch : cm.touches m cwd fs (c.configEntry id ++ [name]) = true) :
    ∃ p dest, cm = .pipeline p dest ∧ NodeFile m c id name p ∧
      ∀ cwd, target cwd dest = c.configEntry id ++ [name] := by
  have hentry : ∀ {n : Text} {q : Prop}, IsName n →
      c.configEntry id ++ [name] = target cwd (c.inConfig n) → q := by
    intro n q hn heq
    rw [target_inConfig c hn] at heq
    exact absurd heq.symm (configEntry_ne_nodeFile c n id name)
  have hscript : ∀ {n : Node} (stem : String) {p : Pipeline}, IsNode m c n →
      (stem, p) ∈ nodeScripts c n → IsName (stem ++ ".sh").toList →
      (Cmd.pipeline p (c.nodeconfdir n.nodeid ++ [(stem ++ ".sh").toList])).touches m cwd fs
        (c.configEntry id ++ [name]) = true →
      ∃ p' dest, Cmd.pipeline p (c.nodeconfdir n.nodeid ++ [(stem ++ ".sh").toList]) =
        .pipeline p' dest ∧ NodeFile m c id name p' ∧
        ∀ cwd, target cwd dest = c.configEntry id ++ [name] := by
    intro n stem p hn hp hname htouch
    have htarget := fun cwd => h.target_script hn.listed hname cwd
    have heq := target_of_touches (Or.inr (Or.inr ⟨_, rfl⟩)) htouch
    rw [htarget] at heq
    obtain ⟨hdir, hfile⟩ := List.append_inj' heq rfl
    obtain rfl := List.singleton_inj.mp (List.append_cancel_left hdir)
    obtain rfl := List.singleton_inj.mp hfile
    exact ⟨_, _, rfl, .script hn hp, htarget⟩
  rcases ha with ha | rfl
  · cases ha with
    | configDir | nodeDir =>
      cases hcm
      cases htouch
    | noNodes =>
      cases hcm
      exact hentry (by decide +kernel) (target_of_touches (Or.inl ⟨_, rfl⟩) htouch)
    | addNode =>
      cases hcm
      exact hentry (by decide +kernel) (target_of_touches (Or.inr (Or.inl ⟨_, rfl⟩)) htouch)
    | conf hn hp hpass =>
      cases hcm
      have htarget := fun cwd => h.target_conf hn hp cwd
      have heq := target_of_touches (Or.inr (Or.inr ⟨_, rfl⟩)) htouch
      rw [htarget] at heq
      obtain ⟨hdir, hfile⟩ := List.append_inj' heq rfl
      obtain rfl := List.singleton_inj.mp (List.append_cancel_left hdir)
      obtain rfl := List.singleton_inj.mp hfile
      exact ⟨_, _, rfl, .conf hn hp hpass, htarget⟩
    | authPass =>
      cases hcm
      obtain ⟨r, hr⟩ := authPass_touches htouch
      rw [Cluster.configEntry, Cluster.configEntry, List.append_assoc, List.append_assoc] at hr
      have hcons := List.append_cancel_left hr
      rw [List.singleton_append, List.singleton_append] at hcons
      exact absurd (by simp [outputNames, (List.cons.inj hcons).1]) hid.not_output
    | start hn =>
      cases hcm
      exact hscript "start_redis" hn (by simp [nodeScripts]) (by decide) htouch
    | shutdown hn =>
      cases hcm
      exact hscript "shutdown_redis" hn (by simp [nodeScripts]) (by decide) htouch
    | connect hn =>
      cases hcm
      exact hscript "connect_redis" hn (by simp [nodeScripts]) (by decide) htouch
    | env | create =>
      cases hcm
      exact hentry (by decide +kernel) (target_of_touches (Or.inr (Or.inr ⟨_, rfl⟩)) htouch)
  · cases hcm
    exact hentry (by decide +kernel) (target_of_touches (Or.inl ⟨_, rfl⟩) htouch)

/-- A completed step keeps what the pipeline of a file has put there. -/
theorem NodeFile.kept (h : PlainNodes m c) (hid : PlainId id) (hp : NodeFile m c id name p) {cm : Cmd}
    (ha : WithMarker (ConfigAct m c) (configMarker m c) (.cmd cm))
    (hthere : contentOf s.fs (c.configEntry id ++ [name]) = some (p.output m))
    (hrun : (exec m cm).run s = (some (), t)) :
    contentOf t.fs (c.configEntry id ++ [name]) = some (p.output m) := by
  by_cases htouch : cm.touches m s.cwd s.fs (c.configEntry id ++ [name]) = true
  · obtain ⟨p', dest, rfl, hp', htarget⟩ := ConfigAct.of_touches h hid ha rfl htouch
    have hcontent := contentOf_of_pipeline hrun
    rwa [htarget, hp'.eq h hp] at hcontent
  · rw [contentOf_of_exec (by simpa using htouch) hrun]
    exact hthere

/-- So do completed scripts that are built from such steps. -/
theorem NodeFile.kept_built (h : PlainNodes m c) (hid : PlainId id) (hp : NodeFile m c id name p)
    {x : Script Shell Unit} (hx : Built m c (ConfigAct m c) x)
    (hthere : contentOf s.fs (c.configEntry id ++ [name]) = some (p.output m))
    (hrun : x.run s = (some (), t)) :
    contentOf t.fs (c.configEntry id ++ [name]) = some (p.output m) := by
  refine hx.of_completed (I := fun u => contentOf u.fs (c.configEntry id ++ [name]) =
    some (p.output m)) (fun a ha => ?_) (fun _ _ _ _ hu => hu) hthere hrun
  obtain ⟨cm, rfl, -⟩ := ConfigAct.additive a ha
  exact ⟨cm, rfl, fun u hu hok => hp.kept h hid (Or.inl ha) hu (exec_eq_some_iff.mpr ⟨hok, rfl⟩)⟩

/-- The scripts of a node are written in its pass. -/
theorem written_of_configScripts (h : PlainNodes m c) (hn : IsNode m c n) {stem : String}
    (hp : (stem, p) ∈ nodeScripts c n) (hrun : (configScripts m c n).run s = (some (), t)) :
    contentOf t.fs (c.configEntry n.nodeid ++ [(stem ++ ".sh").toList]) = some (p.output m) := by
  obtain ⟨s₁, -, s₂, hstart, s₃, hshutdown, hconnect⟩ := (configScripts_eq_some_iff hn.tls).mp hrun
  have hid := h.ids _ hn.listed
  have hfile : NodeFile m c n.nodeid (stem ++ ".sh").toList p := .script hn hp
  have htarget : ∀ {name : Text}, IsName name → ∀ cwd,
      target cwd (c.nodeconfdir n.nodeid ++ [name]) = c.configEntry n.nodeid ++ [name] :=
    fun hname cwd => h.target_script hn.listed hname cwd
  simp only [nodeScripts, List.mem_cons, Prod.mk.injEq, List.not_mem_nil, or_false] at hp
  rcases hp with ⟨rfl, rfl⟩ | ⟨rfl, rfl⟩ | ⟨rfl, rfl⟩
  · have hwritten := contentOf_of_pipeline hstart
    rw [htarget (by decide)] at hwritten
    have hkept := hfile.kept h hid (Or.inl (.shutdown hn)) hwritten hshutdown
    exact hfile.kept h hid (Or.inl (.connect hn)) hkept hconnect
  · have hwritten := contentOf_of_pipeline hshutdown
    rw [htarget (by decide)] at hwritten
    exact hfile.kept h hid (Or.inl (.connect hn)) hwritten hconnect
  · have hwritten := contentOf_of_pipeline hconnect
    rwa [htarget (by decide)] at hwritten

/-- And its confs. -/
theorem written_of_configInstances (h : PlainNodes m c) (hn : IsNode m c n) {port pass : Text}
    (hport : port ∈ n.ports) (hpass : c.redisAuthPass = some pass)
    (hrun : (forEach n.ports.zipIdx (configInstance m c pass n)).run s = (some (), t)) :
    contentOf t.fs (c.configEntry n.nodeid ++ [Cluster.confName n.nodeid port]) =
      some ((confPipeline c n.conf (n.instance pass port) none).output m) := by
  have hid := h.ids _ hn.listed
  have hfile : NodeFile m c n.nodeid (Cluster.confName n.nodeid port)
      (confPipeline c n.conf (n.instance pass port) none) := .conf hn hport hpass
  obtain ⟨i, hi⟩ : ∃ i, (port, i) ∈ n.ports.zipIdx := by
    obtain ⟨i, hlt, heq⟩ := List.getElem_of_mem hport
    exact ⟨i, List.mk_mem_zipIdx_iff_getElem?.mpr (by rw [List.getElem?_eq_getElem hlt, heq])⟩
  refine forEach_reaches (I := fun _ => True) (G := fun u => contentOf u.fs
      (c.configEntry n.nodeid ++ [Cluster.confName n.nodeid port]) = _)
    (fun _ _ _ _ _ _ => trivial) (fun q hq u v _ hu hrun => ?_) hi (fun u v _ hrun => ?_) trivial hrun
  · obtain ⟨u₁, hadd, hconf⟩ := (configInstance_eq_some_iff hn.tls).mp hrun
    have hq := mem_of_mem_zipIdx hq
    have hkept := hfile.kept h hid (Or.inl (.addNode hn hq)) hu hadd
    exact hfile.kept h hid (Or.inl (.conf hn hq hpass)) hkept hconf
  · obtain ⟨u₁, -, hconf⟩ := (configInstance_eq_some_iff hn.tls).mp hrun
    have hwritten := contentOf_of_pipeline hconf
    rwa [h.target_conf hn hport] at hwritten

/-- **The files of the nodes** after a completed `config()`: what their pipelines print. -/
theorem config_rendered (h : PlainNodes m c) (hrun : (config m c).run s = (some (), t))
    (hmem : id ∈ nodesAt m c s) (hp : NodeFile m c id name p) :
    contentOf t.fs (c.configEntry id ++ [name]) = some (p.output m) := by
  obtain ⟨u, hbody, hmarker⟩ := config_eq_some_iff.mp hrun
  obtain ⟨-, s₁, -, hsome, s₂, -, s₃, hloop, htail⟩ := configBody_eq_some_iff.mp hbody
  obtain ⟨s₄, henv, hcreate⟩ := configTail_eq_some_iff.mp htail
  obtain ⟨pass, hpass⟩ := Option.isSome_iff_exists.mp hsome
  rw [hpass, Option.getD_some, h.stable.nodesAt_eq s₂ s] at hloop
  have hplain := h.ids id (listed_of_mem_nodesAt hmem)
  have hnodes : contentOf s₃.fs (c.configEntry id ++ [name]) = some (p.output m) := by
    refine forEach_reaches (I := fun _ => True) (G := fun u => contentOf u.fs
        (c.configEntry id ++ [name]) = _) (fun _ _ _ _ _ _ => trivial)
      (fun id' hid' u v _ hu hnode => ?_) hmem (fun u v _ hnode => ?_) trivial hloop
    · exact hp.kept_built h hplain (built_configNode m c hpass (listed_of_mem_nodesAt hid')) hu
        hnode
    · obtain ⟨u₁, -, u₂, hconfs, hscripts⟩ := configNode_eq_some_iff.mp hnode
      cases hp with
      | @conf n port pass' hn hport hpass' =>
        obtain rfl : pass' = pass := Option.some.inj (hpass'.symm.trans hpass)
        rw [← hn.eq_nodeAt h.stable u₁] at hconfs hscripts
        have hwritten := written_of_configInstances h hn hport hpass hconfs
        have hfile := NodeFile.conf hn hport hpass
        obtain ⟨v₁, h₁, v₂, h₂, v₃, h₃, h₄⟩ := (configScripts_eq_some_iff hn.tls).mp hscripts
        have k₁ := hfile.kept h hplain (Or.inl .authPass) hwritten h₁
        have k₂ := hfile.kept h hplain (Or.inl (.start hn)) k₁ h₂
        have k₃ := hfile.kept h hplain (Or.inl (.shutdown hn)) k₂ h₃
        exact hfile.kept h hplain (Or.inl (.connect hn)) k₃ h₄
      | script hn hmem =>
        rw [← hn.eq_nodeAt h.stable u₁] at hscripts
        exact written_of_configScripts h hn hmem hscripts
  have henv := hp.kept h hplain (Or.inl .env) hnodes henv
  have hcreate := hp.kept h hplain (Or.inl .create) henv hcreate
  exact hp.kept h hplain (Or.inr rfl) hcreate hmarker

end NodeFiles

end RedisCluster
