import EbpfPlayground.HostProcessId.Encap
import EbpfPlayground.HostProcessId.Registration

/-!
# Labels on the wire

`__encap_with_nodeid` rewrites `HOST_ID` before it looks into the map, and the 24 bits of a network
identity are a comment.  What a packet is encapsulated with is therefore what the runs of the script
were given.
-/

namespace EbpfPlayground.HostProcessId

open CString Hex Shell Text

/-- One run of the script, with decimal digits as its argument. -/
structure MagicRun where
  env : MagicEnv
  argument : Text
  digits : ∀ c ∈ argument, c.isDigit = true

/-- The map after one more run, whether it fails or not. -/
def magicRun (netidMap : HostProcessNetidMap) (run : MagicRun) : Option HostProcessNetidMap :=
  some ((run.env.run run.argument netidMap).getD netidMap)

/-- A label that a packet may be encapsulated with. -/
def LegalLabel (hostId label : UInt32) : Prop := label ≠ hostId ∧ label.toNat < 2 ^ 24

/-- No packet with a label of 24 bits is encapsulated with `HOST_ID` or with a longer label. -/
def LegalWire (hostId localNodeId : UInt32) (netidMap : HostProcessNetidMap) : Prop :=
  ∀ (cgroupId : UInt64) (seclabel : UInt32), seclabel.toNat < 2 ^ 24 →
    LegalLabel hostId (encapWithNodeid hostId localNodeId netidMap cgroupId seclabel)

/-- Where the run gets to an update that the map takes, its number has 24 bits and is not `HOST_ID`. -/
def WritesLegal (hostId : UInt32) (netidMap : HostProcessNetidMap) (run : MagicRun) : Prop :=
  run.env.Completes run.argument → netidMap.Accepts (leBuffer 8 run.env.cgroupNumber) →
    MagicEnv.identityNumber run.argument < 2 ^ 32 →
      MagicEnv.identityNumber run.argument < 2 ^ 24 ∧
        MagicEnv.identityNumber run.argument ≠ hostId.toNat

theorem legalLabel_networkId {hostId : UInt32} {n : ℕ} (h : n < 2 ^ 32) :
    LegalLabel hostId (networkId (leBuffer 4 n)) ↔ n < 2 ^ 24 ∧ n ≠ hostId.toNat := by
  rw [networkId_leBuffer h, LegalLabel, and_comm, ← UInt32.toNat_inj.ne, UInt32.toNat_ofNat',
    Nat.mod_eq_of_lt h]

variable {hostId localNodeId : UInt32}

/-- The empty map leaves every packet its own label, or `LOCAL_NODE_ID`. -/
theorem legalWire_empty (hne : localNodeId ≠ hostId) (hsmall : localNodeId.toNat < 2 ^ 24) :
    LegalWire hostId localNodeId BoundedMap.empty := by
  intro cgroupId seclabel hlabel
  rw [encapWithNodeid, BoundedMap.lookup_empty]
  by_cases hhost : seclabel = hostId
  · simp only [if_pos hhost]
    exact ⟨hne, hsmall⟩
  · simp only [if_neg hhost]
    exact ⟨hhost, hlabel⟩

/-- An update that the map takes keeps the labels legal exactly when its own one is. -/
theorem legalWire_put_iff {netidMap : HostProcessNetidMap} {g n : ℕ} (hg : g < 2 ^ 64)
    (hn : n < 2 ^ 32) (haccepts : netidMap.Accepts (leBuffer 8 g))
    (hlegal : LegalWire hostId localNodeId netidMap) :
    LegalWire hostId localNodeId (netidMap.put (leBuffer 8 g) (leBuffer 4 n)) ↔
      n < 2 ^ 24 ∧ n ≠ hostId.toNat := by
  rw [← legalLabel_networkId hn]
  constructor
  · intro h
    have hlabel := h (UInt64.ofNat g) 0 (by decide)
    have hkey : netidKey (UInt64.ofNat g) = leBuffer 8 g := by
      rw [netidKey, UInt64.toNat_ofNat', Nat.mod_eq_of_lt hg]
    rwa [encapWithNodeid, hkey, BoundedMap.lookup_put_self _ haccepts] at hlabel
  · intro h cgroupId seclabel hlabel
    rw [encapWithNodeid]
    by_cases hkey : netidKey cgroupId = leBuffer 8 g
    · rw [hkey, BoundedMap.lookup_put_self _ haccepts]
      exact h
    · rw [BoundedMap.lookup_put_of_ne _ _ hkey]
      exact hlegal cgroupId seclabel hlabel

/-- One run of the script. -/
theorem legalWire_magicRun_iff {netidMap netidMap' : HostProcessNetidMap} {run : MagicRun}
    (hlegal : LegalWire hostId localNodeId netidMap) (hrun : magicRun netidMap run = some netidMap') :
    LegalWire hostId localNodeId netidMap' ↔ WritesLegal hostId netidMap run := by
  have halnum : ∀ c ∈ run.argument, c.isAlphanum := by
    intro c hc
    rw [Char.isAlphanum, run.digits c hc, Bool.or_true]
  rw [magicRun, Option.some_inj] at hrun
  by_cases hwrites : run.env.Completes run.argument ∧
      netidMap.Accepts (leBuffer 8 run.env.cgroupNumber) ∧
        MagicEnv.identityNumber run.argument < 2 ^ 32
  · obtain ⟨hcompletes, haccepts, hn⟩ := hwrites
    have hput := (MagicEnv.run_eq_some halnum).mpr
      ⟨hcompletes, hn, BoundedMap.update_of_accepts _ haccepts⟩
    rw [hput, Option.getD_some] at hrun
    rw [← hrun, legalWire_put_iff MagicEnv.cgroupNumber_lt hn haccepts hlegal]
    exact ⟨fun h _ _ _ ↦ h, fun h ↦ h hcompletes haccepts hn⟩
  · have hnone : run.env.run run.argument netidMap = none := by
      rw [Option.eq_none_iff_forall_ne_some]
      intro written hsome
      obtain ⟨hcompletes, hn, hupdate⟩ := (MagicEnv.run_eq_some halnum).mp hsome
      exact hwrites ⟨hcompletes, (BoundedMap.update_eq_some.mp hupdate).1, hn⟩
    rw [hnone, Option.getD_none] at hrun
    rw [← hrun]
    exact iff_of_true hlegal fun hcompletes haccepts hn ↦
      absurd ⟨hcompletes, haccepts, hn⟩ hwrites

/-- The labels are legal all along exactly when every run that gets to the update was given a legal
one. -/
theorem legalWire_throughout_iff (hostId localNodeId : UInt32) (hne : localNodeId ≠ hostId)
    (hsmall : localNodeId.toNat < 2 ^ 24) (runs : List MagicRun) :
    (∀ first netidMap, first <+: runs → Run.run magicRun BoundedMap.empty first = some netidMap →
        LegalWire hostId localNodeId netidMap) ↔
      Run.Meets magicRun (WritesLegal hostId) BoundedMap.empty runs :=
  Run.invariant_throughout_iff (legalWire_empty hne hsmall) (fun _ _ ↦ rfl)
    (fun _ _ _ ↦ legalWire_magicRun_iff) runs

/-- A run on the demo node. -/
def demoRun (argument : Text) (h : ∀ c ∈ argument, c.isDigit = true) : MagicRun :=
  ⟨MagicEnv.demo ["a1b2".toList] (by decide), argument, h⟩

theorem legalWire_throughout_demo :
    (Run.run magicRun BoundedMap.empty [demoRun "12345".toList (by decide)]).isSome ∧
      ∀ first netidMap, first <+: [demoRun "12345".toList (by decide)] →
        Run.run magicRun BoundedMap.empty first = some netidMap → LegalWire 1 6 netidMap :=
  ⟨rfl, (legalWire_throughout_iff 1 6 (by decide) (by decide) _).mpr
    ⟨fun _ _ _ ↦ by decide, fun _ _ ↦ trivial⟩⟩

theorem not_legalWire_demoRun {argument : Text} (h : ∀ c ∈ argument, c.isDigit = true)
    (hsmall : MagicEnv.identityNumber argument < 2 ^ 32)
    (hillegal : ¬ (MagicEnv.identityNumber argument < 2 ^ 24 ∧
      MagicEnv.identityNumber argument ≠ UInt32.toNat 1)) :
    ∃ netidMap, Run.run magicRun BoundedMap.empty [demoRun argument h] = some netidMap ∧
      ¬ LegalWire 1 6 netidMap := by
  obtain ⟨netidMap, hrun⟩ : ∃ netidMap, magicRun BoundedMap.empty (demoRun argument h) = some netidMap :=
    ⟨_, rfl⟩
  have hempty : LegalWire 1 6 BoundedMap.empty := legalWire_empty (by decide) (by decide)
  refine ⟨netidMap, by rw [Run.run_cons, hrun]; rfl, fun hlegal ↦ hillegal ?_⟩
  have hwrites := (legalWire_magicRun_iff hempty hrun).mp hlegal
  have hcompletes : (demoRun argument h).env.Completes argument :=
    MagicEnv.completes_demo ["a1b2".toList] (by decide) argument
  exact hwrites hcompletes (.inr (by simp)) hsmall

/-- With `HOST_ID` 1, a run for the identity 1, one for 019, which is 1 as an octal number up to the 9, and
one for an identity of 25 bits. -/
theorem legalWire_throughout_counterexample :
    (∃ netidMap, Run.run magicRun BoundedMap.empty [demoRun "1".toList (by decide)] = some netidMap ∧
        ¬ LegalWire 1 6 netidMap) ∧
      (∃ netidMap, Run.run magicRun BoundedMap.empty [demoRun "019".toList (by decide)] =
        some netidMap ∧ ¬ LegalWire 1 6 netidMap) ∧
      ∃ netidMap, Run.run magicRun BoundedMap.empty [demoRun "16777216".toList (by decide)] =
        some netidMap ∧ ¬ LegalWire 1 6 netidMap :=
  ⟨not_legalWire_demoRun _ (by decide) (by decide), not_legalWire_demoRun _ (by decide) (by decide),
    not_legalWire_demoRun _ (by decide) (by decide)⟩

end EbpfPlayground.HostProcessId
