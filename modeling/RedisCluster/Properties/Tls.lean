import RedisCluster.Tool.Outputs

/-!
# The TLS artefacts

`config()` overwrites `tls_enabled` with `1` or `0` before it tests it against `yes`: it
compares no TLS ports, writes no `CLUSTER_TLS_NODES` and makes no TLS script, and
`deploy()`, which looks for `CLUSTER_TLS_NODES`, installs none.

* `config_isFile_clusterTlsNodes`: no run of `config()` makes `CLUSTER_TLS_NODES`.
* `tlsSound_iff`: TLS mode is delivered only where nothing is to be delivered.
-/

namespace RedisCluster

open FileTree Errexit Script

/-- The TLS ports of a node, as a state reads them. -/
def tlsPortsAt (m : Machine) (c : Cluster) (s : Shell) (nodeid : Text) : List Text :=
  listAt m c s nodeid "tlsports".toList

/-- A node has as many TLS ports as ports. -/
def PortsPair (m : Machine) (c : Cluster) (s : Shell) (nodeid : Text) : Prop :=
  (nodeAt m c s nodeid).ports.length = (tlsPortsAt m c s nodeid).length

/-- `host:tlsport` for every port of every node, in order. -/
def tlsNodes (m : Machine) (c : Cluster) (s : Shell) : List Text :=
  (nodesAt m c s).flatMap fun nodeid =>
    (nodeAt m c s nodeid).ports.zipIdx.map fun port =>
      (nodeAt m c s nodeid).host ++ ':' :: (tlsPortsAt m c s nodeid).getD port.2 []

/-- What `config()`, from `s` to `t`, and `deploy()`, from `t` to `u`, have to leave in
    TLS mode. -/
structure TlsDelivered (m : Machine) (c : Cluster) (s t u : Shell) : Prop where
  listed : ∃ f, dataAt t.fs (c.configEntry clusterTlsNodes) = some f ∧
    records f.content = tlsNodes m c s
  copied : testF u.fs u.cwd (c.inHome clusterTlsNodes) = true
  scripts : ∀ nodeid ∈ nodesAt m c s, isLocalAt m c s nodeid = true →
    testF u.fs u.cwd (c.clusterHomeDir ++ pathWord (scriptName "tlsconnect_redis" nodeid)) = true
  certs : testD u.fs u.cwd c.tlsCacertDir = true

/-- TLS mode is sound from `s` on: `config()` completes only if the ports of each node
    pair with its TLS ports, and `deploy()` after it only with all artefacts. -/
def TlsSound (m : Machine) (c : Cluster) (s : Shell) : Prop :=
  c.ini.tlsEnabled = "yes".toList → ∀ t, (config m c).run s = (some (), t) →
    (∀ nodeid ∈ nodesAt m c s, PortsPair m c s nodeid) ∧
      ∀ u, (deploy m c).run t = (some (), u) → TlsDelivered m c s t u

theorem not_isConfigName_clusterTlsNodes :
    ¬ IsConfigName clusterTlsNodes ∧ clusterTlsNodes ≠ clusterAuthPass := by decide +kernel

/-- **No run of `config()`** makes or changes `CLUSTER_TLS_NODES`. -/
theorem config_dataAt_clusterTlsNodes (m : Machine) (c : Cluster) {s t : Shell}
    (hrun : (config m c).run s = (some (), t)) :
    dataAt t.fs (c.configEntry clusterTlsNodes) = dataAt s.fs (c.configEntry clusterTlsNodes) := by
  obtain ⟨u, hbody, hmarker⟩ := config_eq_some_iff.mp hrun
  have hsame := configBody_dataAt_eq (m := m) (c := c) not_isConfigName_clusterTlsNodes.1
    not_isConfigName_clusterTlsNodes.2 s
  rw [hbody] at hsame
  obtain ⟨-, rfl⟩ := exec_eq_some_iff.mp hmarker
  have hframe := (u.changes_after m (configMarker m c)).dataAt_eq
    (p := c.configEntry clusterTlsNodes) ?_
  · rw [hframe, hsame]
  · intro htouch
    obtain ⟨d, hd⟩ := name_of_touches (Or.inl ⟨_, rfl⟩) htouch
    have hlast : [clusterTlsNodes] = [lastName (c.inConfig configSuccess)] :=
      List.append_inj_right' hd rfl
    rw [Cluster.inConfig, lastName_snoc] at hlast
    exact absurd hlast (by decide +kernel)

/-- **TLS mode is delivered** only where `config()` stops for another reason, or the ports
    pair and `deploy()` stops. -/
theorem tlsSound_iff (m : Machine) (c : Cluster) {s : Shell}
    (hfresh : dataAt s.fs (c.configEntry clusterTlsNodes) = none) :
    TlsSound m c s ↔
      (c.ini.tlsEnabled = "yes".toList → ∀ t, (config m c).run s = (some (), t) →
        (∀ nodeid ∈ nodesAt m c s, PortsPair m c s nodeid) ∧
          ∀ u, (deploy m c).run t ≠ (some (), u)) := by
  refine forall_congr' fun _ => forall₂_congr fun t hconfig => and_congr_right fun _ => ?_
  refine forall_congr' fun u => forall_congr' fun hdeploy => ?_
  refine ⟨fun hdelivered => ?_, False.elim⟩
  obtain ⟨f, hf, -⟩ := hdelivered.listed
  rw [config_dataAt_clusterTlsNodes m c hconfig, hfresh] at hf
  cases hf

/-- A cluster in TLS mode, with one node of one port and one TLS port. -/
def tlsCluster : Cluster :=
  let cfg := "[redis_cluster]\nnodes=\"n1\"\n[n1]\nhost=\"hacl-node1\"\nconf=\"c0\"\naddrs=\"a1\"\nports=\"6377\"\ntlsports=\"5377\"\n"
  let ini := { demoIni with tlsEnabled := "yes".toList }
  demoCluster ini (demoInputs ini cfg.toList "t".toList "s".toList "s".toList)

/-- What `build()`, `config()` and `deploy()` leave of it. -/
def tlsBuilt : Shell := ((build plainHost tlsCluster).run demoShell).2
def tlsConfigured : Shell := ((config plainHost tlsCluster).run tlsBuilt).2
def tlsDeployed : Shell := ((deploy plainHost tlsCluster).run tlsConfigured).2

theorem tlsSound_iff_demo : TlsSound plainHost tlsCluster tlsBuilt ↔
    (tlsCluster.ini.tlsEnabled = "yes".toList →
      ∀ t, (config plainHost tlsCluster).run tlsBuilt = (some (), t) →
        (∀ nodeid ∈ nodesAt plainHost tlsCluster tlsBuilt,
          PortsPair plainHost tlsCluster tlsBuilt nodeid) ∧
          ∀ u, (deploy plainHost tlsCluster).run t ≠ (some (), u)) :=
  tlsSound_iff plainHost tlsCluster (by decide +kernel)

/-- Its ports pair, both phases complete, and there is no TLS artefact. -/
theorem tls_not_delivered :
    tlsCluster.ini.tlsEnabled = "yes".toList ∧
      (config plainHost tlsCluster).run tlsBuilt = (some (), tlsConfigured) ∧
      (deploy plainHost tlsCluster).run tlsConfigured = (some (), tlsDeployed) ∧
      nodesAt plainHost tlsCluster tlsBuilt = ["n1".toList] ∧
      PortsPair plainHost tlsCluster tlsBuilt "n1".toList ∧
      isLocalAt plainHost tlsCluster tlsBuilt "n1".toList = true ∧
      dataAt tlsConfigured.fs (tlsCluster.configEntry clusterTlsNodes) = none ∧
      ¬ TlsSound plainHost tlsCluster tlsBuilt := by
  have hconfig : (config plainHost tlsCluster).run tlsBuilt = (some (), tlsConfigured) :=
    run_eq_of_fst (by decide +kernel)
  have hdeploy : (deploy plainHost tlsCluster).run tlsConfigured = (some (), tlsDeployed) :=
    run_eq_of_fst (by decide +kernel)
  have hnone : dataAt tlsConfigured.fs (tlsCluster.configEntry clusterTlsNodes) = none := by
    decide +kernel
  refine ⟨rfl, hconfig, hdeploy, by decide +kernel, ?_, by decide +kernel, hnone, fun h => ?_⟩
  · unfold PortsPair
    decide +kernel
  · obtain ⟨f, hf, -⟩ := ((h rfl _ hconfig).2 _ hdeploy).listed
    rw [hnone] at hf
    cases hf

end RedisCluster
