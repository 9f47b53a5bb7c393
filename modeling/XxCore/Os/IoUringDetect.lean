import XxCore.Os.IoUring

/-! What the detection reports hangs together: each scan goes through a sorted table, raises `min_ver`
or leaves it, and fills one of the sets. -/
namespace XxCore.Os.IoUring

section Flags

theorem intersects_twoPow (flags : BitFlags) {i : Nat} (lt : i < 32) :
    intersects flags (BitVec.twoPow 32 i) = flags.getLsbD i := by
  rw [intersects,BitVec.and_twoPow]
  cases bit : flags.getLsbD i with
  | false => rfl
  | true =>
    have nonzero : BitVec.twoPow 32 i ≠ 0 := by
      intro zero
      have getLsbD := congrArg (BitVec.getLsbD · i) zero
      simp [lt] at getLsbD
    simpa using nonzero

theorem SetupFlag.ctorIdx_lt (flag : SetupFlag) : flag.ctorIdx < 32 := by
  cases flag
  all_goals decide

theorem SetupFlag.ctorIdx_inj {flag other : SetupFlag} (same : flag.ctorIdx = other.ctorIdx) :
    flag = other := by
  rw [← SetupFlag.ofNat_ctorIdx flag,same,SetupFlag.ofNat_ctorIdx]

theorem setupFlagSupported_eq (features : IoRingFeatures) (flag : SetupFlag) :
    features.setupFlagSupported flag = features.setupFlags.getLsbD flag.ctorIdx :=
  intersects_twoPow features.setupFlags flag.ctorIdx_lt

theorem setupFlagSupported_addSetupFlag (s : Detection) (flag other : SetupFlag) :
    (s.addSetupFlag flag).features.setupFlagSupported other ↔
      s.features.setupFlagSupported other ∨ other = flag := by
  rw [setupFlagSupported_eq,setupFlagSupported_eq]
  simp only [Detection.addSetupFlag,SetupFlag.bits,BitVec.getLsbD_or,BitVec.getLsbD_twoPow,
    Bool.or_eq_true,Bool.and_eq_true,decide_eq_true_eq,flag.ctorIdx_lt,true_and]
  apply or_congr_right
  exact ⟨fun same => (SetupFlag.ctorIdx_inj same).symm,fun same => by rw [same]⟩

/-- The set holds an operation of its own in each place. -/
theorem RegisterOp.index_eq (op : RegisterOp) : op.index = op.ctorIdx := by
  cases op
  all_goals rfl

theorem RegisterOp.index_inj {op other : RegisterOp} (same : op.index = other.index) :
    op = other := by
  rw [RegisterOp.index_eq,RegisterOp.index_eq] at same
  rw [← RegisterOp.ofNat_ctorIdx op,same,RegisterOp.ofNat_ctorIdx]

theorem RegisterOp.index_lt (op : RegisterOp) : op.index < RegisterOp.last + 1 := by
  cases op
  all_goals decide

end Flags

namespace Detection

variable {s t u : Detection}

/-- `min_ver` never went down. -/
structure Grown (s : Detection) : Prop where
  last : s.versions.head? = some s.features.minVer
  grows : s.versions.Pairwise (· ≥ ·)

theorem grown_start (reported : BitFlags) : Grown (start reported) where
  last := rfl
  grows := List.pairwise_singleton _ 501

theorem Grown.setMinVer (grown : Grown s) {version : Nat} (le : s.features.minVer ≤ version) :
    Grown (s.setMinVer version) where
  last := rfl
  grows := by
    refine List.pairwise_cons.mpr ⟨fun older has => ?_,grown.grows⟩
    obtain ⟨rest,is⟩ := List.head?_eq_some_iff.mp grown.last
    have ordered := grown.grows
    rw [is] at has ordered
    rcases List.mem_cons.mp has with rfl | has
    · exact le
    · exact Nat.le_trans (List.rel_of_pairwise_cons ordered has) le

/-- A scan before the setup flags: `min_ver` becomes the highest version that is shown, and the
sets that the claims of later scans are about stay. -/
structure Raised (shown : Nat → Prop) (s t : Detection) : Prop where
  minVer : ∀ version, version ≤ t.features.minVer ↔ version ≤ s.features.minVer ∨ shown version
  grown : Grown s → Grown t
  features : t.features.features = s.features.features
  setupFlags : t.features.setupFlags = s.features.setupFlags
  register : t.features.register = s.features.register
  accepted : t.accepted = s.accepted

variable {shown more : Nat → Prop}

theorem Raised.refl (s : Detection) : Raised (fun _ => False) s s where
  minVer _ := (or_iff_left id).symm
  grown := id
  features := rfl
  setupFlags := rfl
  register := rfl
  accepted := rfl

theorem Raised.trans (first : Raised shown s t) (second : Raised more t u) :
    Raised (fun version => shown version ∨ more version) s u where
  minVer version := by rw [second.minVer,first.minVer,or_assoc]
  grown grown := second.grown (first.grown grown)
  features := second.features.trans first.features
  setupFlags := second.setupFlags.trans first.setupFlags
  register := second.register.trans first.register
  accepted := second.accepted.trans first.accepted

theorem Raised.congr (raised : Raised shown s t) (same : ∀ version, shown version ↔ more version) :
    Raised more s t where
  minVer version := by rw [raised.minVer,same]
  grown := raised.grown
  features := raised.features
  setupFlags := raised.setupFlags
  register := raised.register
  accepted := raised.accepted

theorem raised_setMinVer {version : Nat} (le : s.features.minVer ≤ version) :
    Raised (· ≤ version) s (s.setMinVer version) where
  minVer other := by
    change other ≤ version ↔ _
    omega
  grown grown := grown.setMinVer le
  features := rfl
  setupFlags := rfl
  register := rfl
  accepted := rfl

theorem raised_max (s : Detection) (version : Nat) :
    Raised (· ≤ version) s (s.setMinVer (max s.features.minVer version)) where
  minVer other := by
    change other ≤ max s.features.minVer version ↔ _
    omega
  grown grown := grown.setMinVer (Nat.le_max_left _ version)
  features := rfl
  setupFlags := rfl
  register := rfl
  accepted := rfl

theorem raised_setOp (s : Detection) (op : OpCode) (supported : Bool) :
    Raised (fun _ => False) s (s.setOp op supported) where
  minVer _ := (or_iff_left id).symm
  grown grown := ⟨grown.last,grown.grows⟩
  features := rfl
  setupFlags := rfl
  register := rfl
  accepted := rfl

section Scans

/-- The first feature that is there is the one with the highest version. -/
theorem raised_scanFeatures {table : List (Feature × Nat)}
    (sorted : table.Pairwise fun entry later => later.2 ≤ entry.2)
    (low : ∀ entry ∈ table, s.features.minVer ≤ entry.2) :
    Raised (fun version => ∃ entry ∈ table, s.features.featureSupported entry.1 ∧
      version ≤ entry.2) s (s.scanFeatures table) := by
  induction table with
  | nil => exact (Raised.refl s).congr (by simp)
  | cons entry rest ih =>
    obtain ⟨feature,version⟩ := entry
    obtain ⟨later,sorted⟩ := List.pairwise_cons.mp sorted
    rw [scanFeatures]
    split
    next there =>
      refine (raised_setMinVer (low _ List.mem_cons_self)).congr fun other => ?_
      constructor
      · exact fun le => ⟨_,List.mem_cons_self,there,le⟩
      · rintro ⟨entry,has,_,le⟩
        rcases List.mem_cons.mp has with rfl | has
        · exact le
        · exact Nat.le_trans le (later entry has)
    next missing =>
      refine (ih sorted fun entry has => low entry (List.mem_cons_of_mem _ has)).congr fun other => ?_
      simp [missing]

theorem raised_listOps (s : Detection) (table : List (OpCode × Nat)) :
    Raised (fun _ => False) s (s.listOps table) := by
  induction table generalizing s with
  | nil => exact Raised.refl s
  | cons entry rest ih =>
    rw [listOps]
    split
    · exact Raised.refl s
    · exact ((raised_setOp s entry.1 true).trans (ih _)).congr fun _ => or_self_iff

theorem raised_scanOps (ops : List (BitVec 16)) (s : Detection) (table : List (OpCode × Nat)) :
    Raised (fun version => ∃ entry ∈ table, opcodeSupported ops entry.1 ∧ version ≤ entry.2) s
      (scanOps ops s table) := by
  induction table generalizing s with
  | nil => exact (Raised.refl s).congr (by simp)
  | cons entry rest ih =>
    obtain ⟨op,version⟩ := entry
    have set := raised_setOp s op (opcodeSupported ops op)
    rw [scanOps]
    split
    next there =>
      have raised := raised_max (s.setOp op (opcodeSupported ops op)) version
      refine (set.trans (raised.trans (ih _))).congr fun other => ?_
      simp [there]
    next missing =>
      refine (set.trans (ih _)).congr fun other => ?_
      simp [missing]

/-- What a probe shows: that there is one, and the operations it lists. -/
def Shown (result : OsResult Probe) (version : Nat) : Prop :=
  ∃ probe, result = .ok probe ∧ (version ≤ 506 ∨ ∃ entry ∈ opMap,
    opcodeSupported (probe.ops.take (probe.lastOp.toNat + 1)) entry.1 ∧ version ≤ entry.2)

theorem raised_probed {result : OsResult Probe} (probed : s.probed result = .ok t) :
    Raised (Shown result) s t := by
  cases result with
  | error err =>
    rw [Detection.probed] at probed
    split at probed
    · obtain rfl := Except.ok.inj probed
      exact (raised_listOps s opMap).congr (by simp [Shown])
    · contradiction
  | ok probe =>
    obtain rfl := Except.ok.inj probed
    have listed := raised_scanOps (probe.ops.take (probe.lastOp.toNat + 1))
      (s.setMinVer (max s.features.minVer 506)) opMap
    exact ((raised_max s 506).trans listed).congr (by simp [Shown])

end Scans

section SetupFlags

/-- A run of entries whose flags are all added. -/
def addSetupFlags (s : Detection) : List (SetupFlag × Nat) → Detection
  | [] => s
  | entry :: rest => (s.addSetupFlag entry.1).addSetupFlags rest

theorem setupFlagSupported_addSetupFlags (s : Detection) (entries : List (SetupFlag × Nat))
    (flag : SetupFlag) :
    (s.addSetupFlags entries).features.setupFlagSupported flag ↔
      s.features.setupFlagSupported flag ∨ ∃ entry ∈ entries, flag = entry.1 := by
  induction entries generalizing s with
  | nil => simp [addSetupFlags]
  | cons entry rest ih =>
    rw [addSetupFlags,ih,setupFlagSupported_addSetupFlag,or_assoc,List.exists_mem_cons_iff]

/-- Nothing but the set of the setup flags changes. -/
theorem addSetupFlags_eq (s : Detection) (entries : List (SetupFlag × Nat)) :
    ∃ setupFlags, s.addSetupFlags entries =
      { s with features := { s.features with setupFlags := setupFlags } } := by
  induction entries generalizing s with
  | nil => exact ⟨_,rfl⟩
  | cons entry rest ih =>
    obtain ⟨setupFlags,is⟩ := ih (s.addSetupFlag entry.1)
    exact ⟨setupFlags,is⟩

variable {trial : SetupFlag → OsResult (BitVec 32)} {entries : List (SetupFlag × Nat)}

/-- From a flag on whose version is reached no setup is tried. -/
theorem scanSetupFlags_of_le (low : ∀ entry ∈ entries, entry.2 ≤ s.features.minVer) :
    s.scanSetupFlags trial entries = s.addSetupFlags entries := by
  induction entries generalizing s with
  | nil => rfl
  | cons entry rest ih =>
    rw [scanSetupFlags,if_pos (low entry List.mem_cons_self)]
    exact ih fun later has => low later (List.mem_cons_of_mem entry has)

/-- Either every setup that is tried is refused, or the first one that is accepted is the last one
that is tried, and the flags behind it are added. -/
theorem scanSetupFlags_cases (s : Detection) (trial : SetupFlag → OsResult (BitVec 32))
    (sorted : entries.Pairwise fun entry later => later.2 ≤ entry.2) :
    ((∀ entry ∈ entries, s.features.minVer < entry.2 → (trial entry.1).isOk = false) ∧
      s.scanSetupFlags trial entries =
        s.addSetupFlags (entries.filter fun entry => entry.2 ≤ s.features.minVer)) ∨
    ∃ before flag version after, entries = before ++ (flag,version) :: after ∧
      s.features.minVer < version ∧ (trial flag).isOk ∧
      s.scanSetupFlags trial entries = (s.accept flag version).addSetupFlags after := by
  induction entries with
  | nil => exact .inl ⟨by simp,rfl⟩
  | cons entry rest ih =>
    obtain ⟨flag,version⟩ := entry
    obtain ⟨later,ordered⟩ := List.pairwise_cons.mp sorted
    by_cases reached : version ≤ s.features.minVer
    · have low : ∀ entry ∈ (flag,version) :: rest, entry.2 ≤ s.features.minVer := by
        intro entry has
        rcases List.mem_cons.mp has with rfl | has
        · exact reached
        · exact Nat.le_trans (later entry has) reached
      refine .inl ⟨fun entry has above => absurd (low entry has) (Nat.not_le.mpr above),?_⟩
      rw [scanSetupFlags_of_le low,List.filter_eq_self.mpr (by simpa using low)]
    rw [scanSetupFlags,if_neg reached]
    cases tried : (trial flag).isOk with
    | true =>
      refine .inr ⟨[],flag,version,rest,rfl,Nat.not_le.mp reached,tried,?_⟩
      exact scanSetupFlags_of_le later
    | false =>
      rcases ih ordered with ⟨refused,scanned⟩ | ⟨before,other,its,after,rfl,above,accepted,scanned⟩
      · refine .inl ⟨fun entry has above => ?_,?_⟩
        · rcases List.mem_cons.mp has with rfl | has
          · exact tried
          · exact refused entry has above
        · rw [List.filter_cons_of_neg (by simpa using reached)]
          exact scanned
      · exact .inr ⟨(flag,version) :: before,other,its,after,rfl,above,accepted,scanned⟩

end SetupFlags

section Register

theorem registerOpSupported_addRegister (s : Detection)
    (length : s.features.register.length = RegisterOp.last + 1) (op other : RegisterOp) :
    (s.addRegister op).features.registerOpSupported other = some true ↔
      s.features.registerOpSupported other = some true ∨ other = op := by
  have lt : op.index < s.features.register.length := length ▸ op.index_lt
  rw [IoRingFeatures.registerOpSupported,IoRingFeatures.registerOpSupported,addRegister,
    List.getElem?_set]
  by_cases same : op = other
  · simp [same,length,other.index_lt]
  · rw [if_neg fun index => same (RegisterOp.index_inj index)]
    exact (or_iff_left fun is => same is.symm).symm

/-- Nothing but the set of the register operations changes. -/
theorem scanRegister_eq (s : Detection) (table : List (RegisterOp × Nat)) :
    ∃ register, s.scanRegister table =
      { s with features := { s.features with register := register } } := by
  induction table generalizing s with
  | nil => exact ⟨_,rfl⟩
  | cons entry rest ih =>
    rw [scanRegister]
    split
    · exact ⟨_,rfl⟩
    · obtain ⟨register,is⟩ := ih (s.addRegister entry.1)
      exact ⟨register,is⟩

/-- The scan ends where no later operation is in reach. -/
theorem registerOpSupported_scanRegister {table : List (RegisterOp × Nat)} (op : RegisterOp)
    (length : s.features.register.length = RegisterOp.last + 1)
    (sorted : table.Pairwise fun entry later => entry.2 ≤ later.2) :
    (s.scanRegister table).features.registerOpSupported op = some true ↔
      s.features.registerOpSupported op = some true ∨
        ∃ version, (op,version) ∈ table ∧ version ≤ s.features.minVer := by
  induction table generalizing s with
  | nil => simp [scanRegister]
  | cons entry rest ih =>
    obtain ⟨other,version⟩ := entry
    obtain ⟨later,ordered⟩ := List.pairwise_cons.mp sorted
    rw [scanRegister]
    split
    next above =>
      refine (or_iff_left ?_).symm
      rintro ⟨its,has,le⟩
      rcases List.mem_cons.mp has with is | has
      · obtain ⟨_,rfl⟩ := Prod.mk.inj is
        omega
      · have := later _ has
        omega
    next reached =>
      have kept : (s.addRegister other).features.register.length = RegisterOp.last + 1 := by
        rw [addRegister,List.length_set,length]
      rw [ih kept ordered,registerOpSupported_addRegister s length,or_assoc]
      apply or_congr_right
      change _ ∨ (∃ its, _ ∧ its ≤ s.features.minVer) ↔ _
      constructor
      · rintro (rfl | ⟨its,has,le⟩)
        · exact ⟨version,List.mem_cons_self,Nat.not_lt.mp reached⟩
        · exact ⟨its,List.mem_cons_of_mem _ has,le⟩
      · rintro ⟨its,has,le⟩
        rcases List.mem_cons.mp has with is | has
        · exact .inl (Prod.mk.inj is).1
        · exact .inr ⟨its,has,le⟩

end Register

end Detection

open Detection

theorem featureMap_sorted :
    featureMap.reverse.Pairwise fun entry later => later.2 ≤ entry.2 := by decide

theorem featureMap_low : ∀ entry ∈ featureMap.reverse, 501 ≤ entry.2 := by decide

theorem setupFlagMap_sorted :
    setupFlagMap.reverse.Pairwise fun entry later => later.2 ≤ entry.2 := by decide

theorem setupFlagMap_nodup : (setupFlagMap.reverse.map Prod.fst).Nodup := by decide

theorem registerMap_sorted :
    registerMap.Pairwise fun entry later => entry.2 ≤ later.2 := by decide

/-- The version that the kernel's answers show without a trial setup. -/
def Kernel.Shows (kernel : Kernel) (version : Nat) : Prop :=
  version ≤ 501 ∨
    (∃ bits, kernel.setup = .ok bits ∧ ∃ entry ∈ featureMap,
      intersects (Feature.fromBitsTruncate bits) entry.1.bits ∧ version ≤ entry.2) ∨
    Shown kernel.probe version

/-- The sets that are reported agree with the version, which only went up. -/
structure Consistent (s : Detection) : Prop where
  accepted : ∀ flag ∈ s.accepted, s.features.setupFlagSupported flag
  below : ∀ entry ∈ setupFlagMap, entry.2 < s.features.minVer →
    s.features.setupFlagSupported entry.1
  register : ∀ op, s.features.registerOpSupported op = some true ↔
    ∃ version, (op,version) ∈ registerMap ∧ version ≤ s.features.minVer
  grown : Grown s

section Detect

variable {kernel : Kernel} {s t : Detection}

/-- The record before the setup flags are looked at. -/
structure Probed (kernel : Kernel) (s : Detection) : Prop where
  minVer : ∀ version, version ≤ s.features.minVer ↔ kernel.Shows version
  grown : Grown s
  setupFlags : s.features.setupFlags = 0
  register : s.features.register = List.replicate (RegisterOp.last + 1) false
  accepted : s.accepted = []

theorem probed_of_detected (detected : detectFeatures kernel = .ok (some t)) :
    ∃ s, Probed kernel s ∧
      t = (s.scanSetupFlags kernel.trial setupFlagMap.reverse).scanRegister registerMap := by
  rw [detectFeatures] at detected
  split at detected
  next =>
    split at detected
    · cases detected
    · cases detected
  next reported there =>
    let begun := start (Feature.fromBitsTruncate reported)
    have scanned := raised_scanFeatures (s := begun) featureMap_sorted featureMap_low
    dsimp only at detected
    split at detected
    next => contradiction
    next s probed =>
      have raised := scanned.trans (raised_probed probed)
      refine ⟨s,⟨fun version => ?_,raised.grown (grown_start _),raised.setupFlags,raised.register,
        raised.accepted⟩,(Option.some.inj (Except.ok.inj detected)).symm⟩
      rw [raised.minVer]
      change version ≤ 501 ∨ (∃ entry ∈ featureMap.reverse,
        intersects (Feature.fromBitsTruncate reported) entry.1.bits ∧ version ≤ entry.2) ∨ _ ↔ _
      simp [Kernel.Shows,there]

theorem Probed.not_supported (probed : Probed kernel s) (flag : SetupFlag) :
    ¬ s.features.setupFlagSupported flag := by
  rw [setupFlagSupported_eq,probed.setupFlags]
  simp

/-- The flags before the one whose trial setup was accepted have no lower version. -/
theorem below_of_scanned (kernel : Kernel) (s : Detection) :
    ∀ entry ∈ setupFlagMap,
      entry.2 < (s.scanSetupFlags kernel.trial setupFlagMap.reverse).features.minVer →
      (s.scanSetupFlags kernel.trial setupFlagMap.reverse).features.setupFlagSupported entry.1 := by
  intro entry has lower
  have member := List.mem_reverse.mpr has
  rcases scanSetupFlags_cases s kernel.trial setupFlagMap_sorted with
    ⟨_,scanned⟩ | ⟨before,flag,version,after,table,_,_,scanned⟩
  · obtain ⟨_,same⟩ := addSetupFlags_eq s
      (setupFlagMap.reverse.filter fun entry => entry.2 ≤ s.features.minVer)
    have minVer : (s.scanSetupFlags kernel.trial setupFlagMap.reverse).features.minVer =
        s.features.minVer := by rw [scanned,same]
    rw [scanned,setupFlagSupported_addSetupFlags]
    refine .inr ⟨entry,List.mem_filter.mpr ⟨member,?_⟩,rfl⟩
    exact decide_eq_true (Nat.le_of_lt (minVer ▸ lower))
  · obtain ⟨_,same⟩ := addSetupFlags_eq (s.accept flag version) after
    have minVer : (s.scanSetupFlags kernel.trial setupFlagMap.reverse).features.minVer =
        version := by
      rw [scanned,same]
      rfl
    rw [scanned,setupFlagSupported_addSetupFlags]
    have sorted := setupFlagMap_sorted
    rw [table] at member sorted
    refine .inr ⟨entry,?_,rfl⟩
    rcases List.mem_append.mp member with has | has
    · have := (List.pairwise_append.mp sorted).2.2 entry has _ List.mem_cons_self
      omega
    · rcases List.mem_cons.mp has with rfl | has
      · omega
      · exact has

theorem grown_of_scanned (probed : Probed kernel s) :
    Grown (s.scanSetupFlags kernel.trial setupFlagMap.reverse) := by
  rcases scanSetupFlags_cases s kernel.trial setupFlagMap_sorted with
    ⟨_,scanned⟩ | ⟨_,flag,version,after,_,above,_,scanned⟩
  · obtain ⟨_,same⟩ := addSetupFlags_eq s
      (setupFlagMap.reverse.filter fun entry => entry.2 ≤ s.features.minVer)
    rw [scanned,same]
    exact ⟨probed.grown.last,probed.grown.grows⟩
  · obtain ⟨_,same⟩ := addSetupFlags_eq (s.accept flag version) after
    have grown := probed.grown.setMinVer (Nat.le_of_lt above)
    rw [scanned,same]
    exact ⟨grown.last,grown.grows⟩

theorem register_of_scanned (probed : Probed kernel s) :
    (s.scanSetupFlags kernel.trial setupFlagMap.reverse).features.register =
      List.replicate (RegisterOp.last + 1) false := by
  rcases scanSetupFlags_cases s kernel.trial setupFlagMap_sorted with
    ⟨_,scanned⟩ | ⟨_,flag,version,after,_,_,_,scanned⟩
  · obtain ⟨_,same⟩ := addSetupFlags_eq s
      (setupFlagMap.reverse.filter fun entry => entry.2 ≤ s.features.minVer)
    rw [scanned,same]
    exact probed.register
  · obtain ⟨_,same⟩ := addSetupFlags_eq (s.accept flag version) after
    rw [scanned,same]
    exact probed.register

/-- A flag whose trial setup was accepted is the one flag that is not added. -/
theorem accepted_iff (probed : Probed kernel s) :
    (∀ flag ∈ (s.scanSetupFlags kernel.trial setupFlagMap.reverse).accepted,
        (s.scanSetupFlags kernel.trial setupFlagMap.reverse).features.setupFlagSupported flag) ↔
      ∀ entry ∈ setupFlagMap, (kernel.trial entry.1).isOk → kernel.Shows entry.2 := by
  rcases scanSetupFlags_cases s kernel.trial setupFlagMap_sorted with
    ⟨refused,scanned⟩ | ⟨before,flag,version,after,table,above,accepted,scanned⟩
  · obtain ⟨_,same⟩ := addSetupFlags_eq s
      (setupFlagMap.reverse.filter fun entry => entry.2 ≤ s.features.minVer)
    constructor
    · intro _ entry has tried
      rw [← probed.minVer]
      by_contra above
      have refused := refused entry (List.mem_reverse.mpr has) (Nat.lt_of_not_le above)
      rw [refused] at tried
      contradiction
    · intro _ flag has
      rw [scanned,same,probed.accepted] at has
      exact absurd has List.not_mem_nil
  · obtain ⟨_,same⟩ := addSetupFlags_eq (s.accept flag version) after
    have nodup := setupFlagMap_nodup
    rw [table,List.map_append,List.map_cons] at nodup
    constructor
    · intro supported
      have has : flag ∈ (s.scanSetupFlags kernel.trial setupFlagMap.reverse).accepted := by
        rw [scanned,same]
        exact List.mem_cons_self
      have added := supported flag has
      rw [scanned,setupFlagSupported_addSetupFlags] at added
      rcases added with earlier | ⟨entry,later,is⟩
      · exact absurd earlier (probed.not_supported flag)
      · have once := (List.nodup_cons.mp (List.pairwise_append.mp nodup).2.1).1
        exact absurd (List.mem_map.mpr ⟨entry,later,is.symm⟩) once
    · intro shown
      have member : (flag,version) ∈ setupFlagMap := by
        apply List.mem_reverse.mp
        rw [table]
        exact List.mem_append_right before List.mem_cons_self
      have reached := (probed.minVer version).mpr (shown _ member accepted)
      omega

/-- All but the flag of a trial setup that was accepted is reported as it should be, so the report
hangs together if and only if the kernel accepts no flag that is newer than its other answers show. -/
theorem detected_consistent_iff (kernel : Kernel) (t : Detection)
    (detected : detectFeatures kernel = .ok (some t)) :
    Consistent t ↔
      ∀ entry ∈ setupFlagMap, (kernel.trial entry.1).isOk → kernel.Shows entry.2 := by
  obtain ⟨s,probed,rfl⟩ := probed_of_detected detected
  rw [← accepted_iff probed]
  have register := register_of_scanned probed
  have grown := grown_of_scanned probed
  have below := below_of_scanned kernel s
  generalize s.scanSetupFlags kernel.trial setupFlagMap.reverse = scanned at *
  obtain ⟨set,same⟩ := scanRegister_eq scanned registerMap
  have minVer : (scanned.scanRegister registerMap).features.minVer = scanned.features.minVer := by
    rw [same]
  have supported (flag : SetupFlag) :
      (scanned.scanRegister registerMap).features.setupFlagSupported flag =
        scanned.features.setupFlagSupported flag := by rw [same]; rfl
  have accepted : (scanned.scanRegister registerMap).accepted = scanned.accepted := by rw [same]
  constructor
  · intro consistent flag has
    rw [← supported]
    exact consistent.accepted flag (accepted ▸ has)
  · intro all
    refine ⟨fun flag has => ?_,fun entry has lower => ?_,fun op => ?_,?_⟩
    · rw [supported]
      exact all flag (accepted ▸ has)
    · rw [supported]
      exact below entry has (minVer ▸ lower)
    · have length : scanned.features.register.length = RegisterOp.last + 1 := by
        rw [register,List.length_replicate]
      rw [registerOpSupported_scanRegister op length registerMap_sorted,minVer]
      apply or_iff_right
      rw [IoRingFeatures.registerOpSupported,register,List.getElem?_replicate]
      simp
    · rw [same]
      exact ⟨grown.last,grown.grows⟩

/-- The answers of a kernel of version 6.6: all the features, the operations up to the last one of
version 6.1, and of the setups with one flag the one without a submission array. -/
def kernel606 : Kernel where
  setup := .ok 0x3fff
  probe := .ok ⟨48,List.replicate probeOpsCount 1,List.length_replicate⟩
  trial flag := if flag = .noSubmissionArray then .ok 0x3fff else .error .inval

/-- What is detected there: `min_ver` goes up to the version of the flag, and the flag is left out. -/
def detected606 : Detection where
  features := {
    minVer := 606
    features := 0x3fff
    setupFlags := 0xffff
    ops := List.replicate 49 true ++ List.replicate 7 false
    register := List.replicate (RegisterOp.last + 1) true }
  versions := 606 :: List.replicate 51 603 ++ [501]
  accepted := [.noSubmissionArray]

theorem detected_consistent_iff_kernel606 :
    detectFeatures kernel606 = .ok (some detected606) ∧
      (Consistent detected606 ↔
        ∀ entry ∈ setupFlagMap, (kernel606.trial entry.1).isOk → kernel606.Shows entry.2) :=
  have detected : detectFeatures kernel606 = .ok (some detected606) := by decide +kernel
  ⟨detected,detected_consistent_iff kernel606 detected606 detected⟩

theorem kernel606_not_consistent :
    detectFeatures kernel606 = .ok (some detected606) ∧ ¬ Consistent detected606 := by
  refine ⟨by decide +kernel,fun consistent => ?_⟩
  have supported := consistent.accepted .noSubmissionArray List.mem_cons_self
  exact absurd supported (by decide)

end Detect

end XxCore.Os.IoUring
