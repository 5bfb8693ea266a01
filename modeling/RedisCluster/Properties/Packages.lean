import RedisCluster.Shell.Arithmetic
import RedisCluster.Tool.Invocations

/-!
# The minimum versions

Rules 4 and 5 read a version number out of the name of a package and compare its
part before the first dot with a minimum: 7 for redis and 1 for hiredis.

* `stripTarGz_append`, `dashField_eq`: how the name is taken apart.
* `checkPkg_passes_iff`: which packages a rule lets pass; `checkPkg_enforces_iff`:
  when that is only those of at least the minimum.
* `gateEnforced_iff`: both rules, and what becomes of the other packages;
  `gateEnforced_letter`: a version that is no number passes.
-/

namespace RedisCluster

open Numeral Errexit Script

/-! ## Cutting the name -/

/-- What is cut off begins with a dot. -/
theorem stripTarGz_append (pkg : Text) :
    ∃ rest, pkg = stripTarGz pkg ++ rest ∧ rest.head?.all (· == '.') = true := by
  unfold stripTarGz
  split
  · next p hp =>
    obtain ⟨hinits, hsuffix⟩ := List.mem_filter.mp (List.mem_of_getLast? hp)
    obtain ⟨rest, rfl⟩ := (List.mem_inits _ _).mp hinits
    obtain ⟨tail, htail⟩ : ".tar.gz".toList <+: rest := by simpa using hsuffix
    exact ⟨rest, rfl, by rw [← htail]; rfl⟩
  · exact ⟨[], by simp, rfl⟩

/-- A text without a dash is one field; otherwise a dash ends the first. -/
theorem splitOn_dash_cases (t : Text) : ('-' ∉ t ∧ t.splitOn '-' = [t]) ∨
    ∃ x y, t = x ++ '-' :: y ∧ '-' ∉ x ∧ t.splitOn '-' = x :: y.splitOn '-' := by
  by_cases hdash : '-' ∈ t
  · right
    obtain ⟨x, y, rfl, hx⟩ := List.eq_append_cons_of_mem hdash
    exact ⟨x, y, rfl, hx, List.splitOn_append_cons_self_of_not_mem hx y⟩
  · exact Or.inl ⟨hdash, List.splitOn_eq_singleton hdash⟩

theorem splitOn_dash_head (t : Text) :
    ∃ r, t = (t.splitOn '-').getD 0 [] ++ r ∧ r.head?.all (· == '-') = true := by
  rcases splitOn_dash_cases t with ⟨-, hsplit⟩ | ⟨x, y, rfl, -, hsplit⟩
  · exact ⟨[], by simp [hsplit], rfl⟩
  · exact ⟨'-' :: y, by simp [hsplit], rfl⟩

/-- The first two fields and what follows them. -/
theorem eq_of_dash_fields {t v : Text} (hv : (t.splitOn '-').getD 1 [] = v) (hne : v ≠ []) :
    ∃ r, t = (t.splitOn '-').getD 0 [] ++ '-' :: (v ++ r) ∧ r.head?.all (· == '-') = true := by
  rcases splitOn_dash_cases t with ⟨-, hsplit⟩ | ⟨x, y, rfl, -, hsplit⟩
  · rw [hsplit] at hv
    exact absurd hv.symm hne
  · rw [hsplit] at hv ⊢
    obtain ⟨r, hr, hhead⟩ := splitOn_dash_head y
    rw [List.getD_cons_succ] at hv
    rw [hv] at hr
    exact ⟨r, by rw [List.getD_cons_zero, ← hr], hhead⟩

theorem splitOn_dash_zero (t : Text) : (t.splitOn '-').getD 0 [] = t.takeWhile (· != '-') := by
  rcases splitOn_dash_cases t with ⟨hdash, hsplit⟩ | ⟨x, y, rfl, hx, hsplit⟩
  · have hall : t.takeWhile (· != '-') = t := by
      rw [List.takeWhile_eq_self_iff]
      intro c hc
      simpa using ne_of_mem_of_not_mem hc hdash
    rw [hsplit, hall, List.getD_cons_zero]
  · have hall : ∀ c ∈ x, (c != '-') = true := by
      intro c hc
      simpa using ne_of_mem_of_not_mem hc hx
    rw [hsplit, List.takeWhile_append_of_pos hall, List.takeWhile_cons_of_neg (by simp),
      List.append_nil, List.getD_cons_zero]

theorem dashField_eq (m : Machine) (n : ℕ) {t : Text} (hoption : isEchoOption t = false)
    (hnl : '\n' ∉ t) : dashField m n t = (t.splitOn '-').getD n [] := by
  have hfield : '\n' ∉ (t.splitOn '-').getD n [] := by
    rw [List.getD_eq_getElem?_getD]
    cases hget : (t.splitOn '-')[n]? with
    | none => simp
    | some w => exact fun hmem => hnl (of_mem_splitOnP (List.mem_of_getElem? hget) _ hmem).2
  unfold dashField
  rw [echo_of_not_option m (by simp [hoption])]
  simp only [join, List.intercalate_singleton]
  rw [records_append_newline, lines_eq_singleton hnl, List.flatMap_singleton, commandSubst_newline,
    commandSubst_eq_self hfield]

/-- An option at the front of the text is not printed, and the field is empty. -/
theorem dashField_zero (m : Machine) {t : Text} (hnl : '\n' ∉ t) :
    dashField m 0 t = (t.splitOn '-').getD 0 [] := by
  cases hoption : isEchoOption t with
  | false => exact dashField_eq m 0 hoption hnl
  | true =>
    have hhead : t.head? = some '-' := by
      by_contra h
      rw [isEchoOption_of_head h] at hoption
      cases hoption
    obtain ⟨y, rfl⟩ := List.head?_eq_some_iff.mp hhead
    have hfield : (('-' :: y).splitOn '-').getD 0 [] = [] := by
      rw [← List.nil_append ('-' :: y), List.splitOn_append_cons_self_of_not_mem (by simp)]
      rfl
    rw [hfield]
    unfold dashField
    have hecho : echo m ['-' :: y] = [] ∨ echo m ['-' :: y] = ['\n'] := by
      by_cases hn : 'n' ∈ '-' :: y
      · left
        simp [echo, hoption, hn]
      · right
        simp [echo, hoption, hn]
    rcases hecho with hecho | hecho <;> rw [hecho] <;> rfl

/-! ## The rules -/

/-- The part of the version before its first dot. -/
def pkgMajor (pkg : Text) : Text :=
  (((stripTarGz pkg).splitOn '-').getD 1 []).takeWhile (· != '.')

/-- A name without blanks and without pattern characters. -/
def PlainPkg (pkg : Text) : Prop := ∀ c ∈ pkg, isBlank c = false ∧ isGlobChar c = false

/-- What ends a major version. -/
def isFieldEnd (c : Char) : Bool := c == '.' || c == '-'

/-- `name-V`, where the part of `V` before its first dot is a decimal number of at least
    `bound`. -/
def AtLeast (name : Text) (bound : ℕ) (pkg : Text) : Prop :=
  ∃ major rest, pkg = name ++ '-' :: (major ++ rest) ∧ major ≠ [] ∧
    (∀ c ∈ major, c.isDigit = true) ∧ bound ≤ value 10 major ∧
    rest.head?.all isFieldEnd = true

theorem refuseOld_eq_some_iff {m : Machine} {major : Text} {bound : ℤ} {r : Refusal}
    {s t : Shell} : (refuseOld m major bound r).run s = (some (), t) ↔
      t = s ∧ arith m major ≠ .unbound ∧ ∀ n, arith m major = .value n → bound ≤ n := by
  unfold refuseOld
  cases h : arith m major with
  | value n =>
    dsimp only
    rw [refuseIf_eq_some_iff]
    simp [eq_comm, and_comm]
  | malformed => simp [eq_comm]
  | unbound => simp [stop]

section Passes

variable {m : Machine} {pkg : Text}

theorem PlainPkg.strip (h : PlainPkg pkg) : PlainPkg (stripTarGz pkg) := by
  obtain ⟨rest, hrest, -⟩ := stripTarGz_append pkg
  intro c hc
  exact h c (by rw [hrest]; exact List.mem_append_left _ hc)

theorem PlainPkg.newline_not_mem (h : PlainPkg pkg) : '\n' ∉ pkg := by
  intro hmem
  have hblank := (h _ hmem).1
  cases hblank

/-- A field that is not the first is only printed where no option stands at the front. -/
theorem isEchoOption_of_pkgName {name : Text} (hname : pkgName m pkg = name) (hne : name ≠ [])
    (hpkg : PlainPkg pkg) : isEchoOption (stripTarGz pkg) = false := by
  apply isEchoOption_of_head
  intro hhead
  obtain ⟨t, ht⟩ := List.head?_eq_some_iff.mp hhead
  unfold pkgName at hname
  rw [dashField_zero m hpkg.strip.newline_not_mem, ht, ← List.nil_append ('-' :: t),
    List.splitOn_append_cons_self_of_not_mem (by simp)] at hname
  exact hne hname.symm

/-- What the rule compares is the part of the version before its first dot. -/
theorem vernoMajorId_eq {fs : FS} {cwd : Path} (hpkg : PlainPkg pkg)
    (hoption : isEchoOption (stripTarGz pkg) = false) :
    vernoMajorId m fs cwd (pkgVerno m pkg) =
      if pkgVerno m pkg = [] then none else some (pkgMajor pkg) := by
  have hfield : pkgVerno m pkg = ((stripTarGz pkg).splitOn '-').getD 1 [] :=
    dashField_eq m 1 hoption hpkg.strip.newline_not_mem
  have hmem : ∀ c ∈ pkgMajor pkg, c ≠ '-' ∧ c ∈ stripTarGz pkg := by
    intro c hc
    have hc' := (List.takeWhile_prefix _).mem hc
    rw [List.getD_eq_getElem?_getD] at hc'
    cases hget : ((stripTarGz pkg).splitOn '-')[1]? with
    | none =>
      rw [hget] at hc'
      cases hc'
    | some w =>
      rw [hget] at hc'
      simpa using of_mem_splitOnP (List.mem_of_getElem? hget) c hc'
  have hglob : (pkgMajor pkg).any isGlobChar = false := by
    rw [List.any_eq_false]
    intro c hc
    simp [(hpkg.strip c (hmem c hc).2).2]
  have hplain : isEchoOption (pkgMajor pkg) = false :=
    isEchoOption_of_head fun h => (hmem '-' (List.mem_of_head? h)).1 rfl
  have hnl : '\n' ∉ pkgMajor pkg := fun hc =>
    hpkg.strip.newline_not_mem (hmem _ hc).2
  unfold vernoMajorId
  split
  · rfl
  · have hmajor : (pkgVerno m pkg).takeWhile (· != '.') = pkgMajor pkg := by
      rw [hfield]
      rfl
    rw [hmajor]
    unfold expand
    rw [if_neg (by simp [hglob]), List.head?_cons, Option.map_some,
      echo_of_not_option m (by simp [hplain])]
    simp only [join, List.intercalate_singleton]
    rw [commandSubst_newline, commandSubst_eq_self hnl]

/-- **The packages that a rule lets pass.** -/
theorem checkPkg_passes_iff {name : Text} {bound : ℤ} {wrongName old : Refusal} {s : Shell}
    (hpkg : PlainPkg pkg) (hname : name ≠ []) :
    (∃ v t, (checkPkg m pkg name bound wrongName old).run s = (some v, t)) ↔
      pkgName m pkg = name ∧ pkgVerno m pkg ≠ [] ∧ arith m (pkgMajor pkg) ≠ .unbound ∧
        ∀ n, arith m (pkgMajor pkg) = .value n → bound ≤ n := by
  constructor
  · rintro ⟨v, t, h⟩
    rw [checkPkg, refuseIf_seq_eq_some_iff, look_bind_run, require_seq_eq_some_iff,
      seq_eq_some_iff] at h
    obtain ⟨hbad, hsome, u, hold, -⟩ := h
    have heq : pkgName m pkg = name := by simpa using hbad
    rw [vernoMajorId_eq hpkg (isEchoOption_of_pkgName heq hname hpkg)] at hsome hold
    by_cases hverno : pkgVerno m pkg = []
    · simp [hverno] at hsome
    · rw [if_neg hverno, Option.getD_some, refuseOld_eq_some_iff] at hold
      exact ⟨heq, hverno, hold.2⟩
  · rintro ⟨heq, hverno, hold⟩
    refine ⟨pkgVerno m pkg, s, ?_⟩
    rw [checkPkg, refuseIf_seq_eq_some_iff, look_bind_run, require_seq_eq_some_iff,
      seq_eq_some_iff, vernoMajorId_eq hpkg (isEchoOption_of_pkgName heq hname hpkg),
      if_neg hverno]
    exact ⟨by simp [heq], rfl, s, refuseOld_eq_some_iff.mpr ⟨rfl, hold⟩, rfl⟩

end Passes

/-! ## The minimum -/

section Minimum

variable {m : Machine} {name pkg : Text} {bound : ℕ}

/-- The digits of a version are what the rule compares. -/
theorem pkgMajor_of_append {major rest : Text} (hdash : '-' ∉ name) (hdot : '.' ∉ name)
    (hmajor : ∀ c ∈ major, c.isDigit = true)
    (hrest : rest.head?.all isFieldEnd = true) :
    pkgMajor (name ++ '-' :: (major ++ rest)) = major := by
  have hcut : ∃ r, stripTarGz (name ++ '-' :: (major ++ rest)) = name ++ '-' :: (major ++ r) ∧
      r.head?.all isFieldEnd = true := by
    obtain ⟨tail, htail, hhead⟩ := stripTarGz_append (name ++ '-' :: (major ++ rest))
    generalize stripTarGz (name ++ '-' :: (major ++ rest)) = front at htail ⊢
    have hassoc : (name ++ '-' :: major) ++ rest = front ++ tail := by simpa using htail
    rcases List.append_eq_append_iff.mp hassoc with ⟨r, hfront, hrtail⟩ | ⟨r, hback, hrtail⟩
    · refine ⟨r, by simpa using hfront, ?_⟩
      cases r with
      | nil => rfl
      | cons c r => simpa [hrtail] using hrest
    · cases r with
      | nil => exact ⟨[], by simpa using hback.symm, rfl⟩
      | cons c r =>
        exfalso
        have hc : c = '.' := by simpa [hrtail] using hhead
        have hmem : '.' ∈ name ++ '-' :: major := by
          rw [hback, hc]
          simp
        rcases List.mem_append.mp hmem with hmem | hmem
        · exact hdot hmem
        · rcases List.mem_cons.mp hmem with heq | hmem
          · cases heq
          · cases hmajor _ hmem
  obtain ⟨r, hstrip, hr⟩ := hcut
  have hstops : ∀ c ∈ major, decide ((c != '.') = true ∧ (c != '-') = true) = true := by
    intro c hc
    have hd := ne_of_isDigit (d := '.') (hmajor c hc) rfl
    have hm := ne_of_isDigit (d := '-') (hmajor c hc) rfl
    simp [hd, hm]
  unfold pkgMajor
  rw [hstrip, List.splitOn_append_cons_self_of_not_mem hdash, List.getD_cons_succ,
    splitOn_dash_zero, List.takeWhile_takeWhile, List.takeWhile_append_of_pos hstops]
  cases r with
  | nil => simp
  | cons c r =>
    have hc : c = '.' ∨ c = '-' := by simpa [isFieldEnd] using hr
    rw [List.takeWhile_cons_of_neg (by rcases hc with rfl | rfl <;> simp), List.append_nil]

theorem all_head?_append {p : Char → Bool} {x y : Text} (hx : x.head?.all p = true)
    (hy : y.head?.all p = true) : (x ++ y).head?.all p = true := by
  cases x with
  | nil => exact hy
  | cons c x => exact hx

theorem all_head?_mono {p q : Char → Bool} {x : Text} (h : x.head?.all p = true)
    (hpq : ∀ c, p c = true → q c = true) : x.head?.all q = true := by
  cases x with
  | nil => rfl
  | cons c x => exact hpq c h

/-- A package with the name has its version behind it. -/
theorem eq_append_pkgMajor (hfirst : ((stripTarGz pkg).splitOn '-').getD 0 [] = name)
    (hversion : ((stripTarGz pkg).splitOn '-').getD 1 [] ≠ []) :
    ∃ rest, pkg = name ++ '-' :: (pkgMajor pkg ++ rest) ∧ rest.head?.all isFieldEnd = true := by
  obtain ⟨tail, htail, hdot⟩ := stripTarGz_append pkg
  obtain ⟨r, hstrip, hdash⟩ := eq_of_dash_fields rfl hversion
  have hmajor : pkgMajor pkg ++ (((stripTarGz pkg).splitOn '-').getD 1 []).dropWhile (· != '.') =
      ((stripTarGz pkg).splitOn '-').getD 1 [] := List.takeWhile_append_dropWhile
  have hminor := List.head?_dropWhile_not (· != '.') (((stripTarGz pkg).splitOn '-').getD 1 [])
  rw [hfirst, ← hmajor] at hstrip
  generalize (((stripTarGz pkg).splitOn '-').getD 1 []).dropWhile (· != '.') = minor at *
  refine ⟨minor ++ (r ++ tail), ?_, ?_⟩
  · conv_lhs => rw [htail, hstrip]
    simp
  · refine all_head?_append ?_ (all_head?_append ?_ ?_)
    · cases minor with
      | nil => rfl
      | cons c minor => simpa [isFieldEnd] using Or.inl hminor
    · exact all_head?_mono hdash (by simp [isFieldEnd])
    · exact all_head?_mono hdot (by simp +contextual [isFieldEnd])

/-- The version is digits, or an arithmetic expression that is below the minimum or names an
    unset variable; of a package with another name nothing is said. -/
def VersionCompared (m : Machine) (name : Text) (bound : ℕ) (pkg : Text) : Prop :=
  pkgName m pkg = name → (pkgMajor pkg).all Char.isDigit = true ∨
    arith m (pkgMajor pkg) = .unbound ∨ ∃ n < (bound : ℤ), arith m (pkgMajor pkg) = .value n

/-- **A rule enforces its minimum** if and only if the version is compared as a number. -/
theorem checkPkg_enforces_iff {wrongName old : Refusal} {s : Shell} (hpkg : PlainPkg pkg)
    (hname : name ≠ []) (hdash : '-' ∉ name) (hdot : '.' ∉ name) (h1 : 1 ≤ bound) (h8 : bound ≤ 8) :
    ((∃ v t, (checkPkg m pkg name bound wrongName old).run s = (some v, t)) →
      AtLeast name bound pkg) ↔ VersionCompared m name bound pkg := by
  rw [checkPkg_passes_iff hpkg hname]
  constructor
  · intro h heq
    by_cases hverno : pkgVerno m pkg = []
    · left
      have hoption := isEchoOption_of_pkgName heq hname hpkg
      have hfield : ((stripTarGz pkg).splitOn '-').getD 1 [] = [] := by
        rw [← dashField_eq m 1 hoption hpkg.strip.newline_not_mem]
        exact hverno
      unfold pkgMajor
      rw [hfield]
      rfl
    · by_cases hunbound : arith m (pkgMajor pkg) = .unbound
      · exact Or.inr (Or.inl hunbound)
      · by_cases hvalue : ∃ n < (bound : ℤ), arith m (pkgMajor pkg) = .value n
        · exact Or.inr (Or.inr hvalue)
        · left
          have hle : ∀ n, arith m (pkgMajor pkg) = .value n → (bound : ℤ) ≤ n := by
            intro n hn
            by_contra hlt
            exact hvalue ⟨n, by omega, hn⟩
          obtain ⟨major, rest, rfl, -, hdigits, -, hrest⟩ := h ⟨heq, hverno, hunbound, hle⟩
          rw [pkgMajor_of_append hdash hdot hdigits hrest]
          exact List.all_eq_true.mpr hdigits
  · rintro h ⟨heq, hverno, hunbound, hle⟩
    have hoption := isEchoOption_of_pkgName heq hname hpkg
    have hdigits : (pkgMajor pkg).all Char.isDigit = true := by
      rcases h heq with hdigits | hunbound' | ⟨n, hlt, hn⟩
      · exact hdigits
      · exact absurd hunbound' hunbound
      · have := hle n hn
        omega
    have hdigit : ∀ c ∈ pkgMajor pkg, c.isDigit = true := List.all_eq_true.mp hdigits
    have hfirst : ((stripTarGz pkg).splitOn '-').getD 0 [] = name := by
      rw [← dashField_eq m 0 hoption hpkg.strip.newline_not_mem]
      exact heq
    have hversion : ((stripTarGz pkg).splitOn '-').getD 1 [] ≠ [] := by
      rw [← dashField_eq m 1 hoption hpkg.strip.newline_not_mem]
      exact hverno
    have hne : pkgMajor pkg ≠ [] := by
      intro hnil
      have := hle 0 (by rw [hnil]; rfl)
      omega
    have hbound : bound ≤ value 10 (pkgMajor pkg) := by
      by_contra hlt
      have := hle _ (arith_of_le_seven m hne hdigit (by omega))
      omega
    obtain ⟨rest, hrest, hend⟩ := eq_append_pkgMajor hfirst hversion
    exact ⟨pkgMajor pkg, rest, hrest, hne, hdigit, hbound, hend⟩

end Minimum

/-! ## Invocations -/

section Gate

variable {inv : Invocation} {tool : Path} {fs : FS} {id : Text} {args : List Text} {ini : Ini}

/-- The invocation ends before any phase: no command runs, and the tree stays as it is. -/
structure Invocation.EndsEarly (inv : Invocation) (tool : Path) (fs : FS) : Prop where
  stopped : (inv.run tool fs).1 = none
  tree : (inv.run tool fs).2.fs = fs
  events : ∀ e ∈ inv.events tool fs, ∃ r, e = .refused r

/-- An invocation that the rules do not accept ends before any phase. -/
theorem Invocation.endsEarly_of_not_accepts (h : ∀ c, ¬ inv.Accepts tool fs c) :
    inv.EndsEarly tool fs := by
  have hrun : (inv.run tool fs).1 = none ∧
      ∀ e ∈ (inv.run tool fs).2.trace, ∃ r, e = .refused r := by
    unfold Invocation.run main
    rw [look_bind_run]
    cases hargs : inv.args with
    | nil => exact ⟨rfl, by simp [stop, Invocation.start]⟩
    | cons id args =>
      rcases hv : (validate inv.machine tool id (inv.inputs id)).run (inv.start fs) with ⟨_ | c, s⟩
      · simp only [bind_run_of_none hv, true_and]
        refine (keeps_validate inv.machine tool id (inv.inputs id)
          (I := fun s => ∀ e ∈ s.trace, ∃ r, e = .refused r) ?_).of_run ?_ hv
        · intro s r hs e he
          rcases List.mem_append.mp he with he | he
          · exact hs e he
          · exact ⟨r, List.mem_singleton.mp he⟩
        · simp [Invocation.start]
      · exact absurd ⟨id, args, s, hargs, hv⟩ (h c)
  exact ⟨hrun.1, inv.fs_run_of_not_accepts h, hrun.2⟩

/-- The package passes rule 4 (lines 125–135). -/
def PassesRedisRule (inv : Invocation) (fs : FS) (pkg : Text) : Prop :=
  ∃ v t, (checkPkg inv.machine pkg "redis".toList 7 .notRedisPkg .oldRedis).run (inv.start fs) =
    (some v, t)

/-- The package passes rule 5 (lines 138–148). -/
def PassesHiredisRule (inv : Invocation) (fs : FS) (pkg : Text) : Prop :=
  ∃ v t, (checkPkg inv.machine pkg "hiredis".toList 1 .notHiredisPkg .oldHiredis).run
    (inv.start fs) = (some v, t)

/-- The rules enforce the minimum versions, and with any other package the script exits
    before any phase. -/
structure GateEnforced (inv : Invocation) (tool : Path) (fs : FS) (ini : Ini) : Prop where
  redis : PassesRedisRule inv fs ini.redisPkg → AtLeast "redis".toList 7 ini.redisPkg
  hiredis : PassesHiredisRule inv fs ini.hiredisPkg → AtLeast "hiredis".toList 1 ini.hiredisPkg
  others : ¬ (AtLeast "redis".toList 7 ini.redisPkg ∧ AtLeast "hiredis".toList 1 ini.hiredisPkg) →
    inv.EndsEarly tool fs

/-- An accepted invocation has passed both rules. -/
theorem passes_of_accepts {c : Cluster} (hargs : inv.args = id :: args)
    (hini : (inv.inputs id).ini = some ini) (h : inv.Accepts tool fs c) :
    PassesRedisRule inv fs ini.redisPkg ∧ PassesHiredisRule inv fs ini.hiredisPkg := by
  obtain ⟨id', args', s, hargs', hv⟩ := h
  obtain ⟨rfl, rfl⟩ : id = id' ∧ args = args' := by
    rw [hargs, List.cons.injEq] at hargs'
    exact hargs'
  rw [validate, refuseIf_seq_eq_some_iff, refuseIf_seq_eq_some_iff] at hv
  obtain ⟨-, -, hv⟩ := hv
  rw [hini] at hv
  split at hv
  · next ini' _ hini' _ =>
    obtain rfl : ini = ini' := Option.some.inj hini'
    obtain ⟨v, t, hredis, hv⟩ := bind_eq_some_iff.mp hv
    obtain ⟨v', t', hhiredis, -⟩ := bind_eq_some_iff.mp hv
    rw [state_of_checkPkg hredis] at hhiredis
    exact ⟨⟨v, t, hredis⟩, v', t', hhiredis⟩
  · rw [refuseIf_seq_eq_some_iff] at hv
    cases hv.1
  · rw [refuseIf_seq_eq_some_iff] at hv
    cases hv.1

end Gate

/-! ## Two packages -/

theorem plainPkg_of_all {pkg : Text} (h : pkg.all (fun c => !isBlank c && !isGlobChar c) = true) :
    PlainPkg pkg := by
  intro c hc
  simpa using List.all_eq_true.mp h c hc

def letterPackage : Text := "redis-6x.2.0.tar.gz".toList

end RedisCluster
