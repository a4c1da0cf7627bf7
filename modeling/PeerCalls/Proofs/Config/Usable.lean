import PeerCalls.Config

/-!
# Usable configurations

`Config.defect?` looks for one defect after the other and gives the first.  So there is none
exactly if each list of rates holds something and no zero, no interval is zero, and the limit is
not zero: each of these conditions is about one field alone, whatever the other fields hold.
-/

namespace PeerCalls.Config

variable {config : Config}

theorem rateDefect?_eq_none_iff {set : RateSet} :
    config.rateDefect? set = none ↔ config.rates set ≠ [] ∧ 0 ∉ config.rates set := by
  unfold rateDefect?
  by_cases hempty : config.rates set = []
  · simp [hempty]
  · by_cases hzero : 0 ∈ config.rates set <;> simp [hempty, hzero]

/-- A configuration is usable when its rates, its intervals and its limit are. -/
theorem usable_iff :
    config.Usable ↔ (∀ set, config.rates set ≠ [] ∧ 0 ∉ config.rates set) ∧
      (config.idleInterval ≠ 0 ∧ config.frameIntervals.audio ≠ 0 ∧
        config.frameIntervals.video ≠ 0) ∧ config.inboundLimit ≠ 0 := by
  have hsets : (∀ set, config.rates set ≠ [] ∧ 0 ∉ config.rates set) ↔
      config.rateDefect? .audioBitRates = none ∧ config.rateDefect? .videoBitRates = none ∧
        config.rateDefect? .samplingRates = none := by
    simp only [← rateDefect?_eq_none_iff]
    refine ⟨fun h => ⟨h _, h _, h _⟩, fun ⟨haudio, hvideo, hsampling⟩ set => ?_⟩
    cases set <;> assumption
  rw [hsets]
  unfold Usable defect?
  cases config.rateDefect? .audioBitRates <;> cases config.rateDefect? .videoBitRates <;>
    cases config.rateDefect? .samplingRates <;> simp
  grind

/-- A rate that a usable configuration supports is not zero. -/
theorem Usable.ne_zero_of_supported (h : config.Usable) {rate : UInt32}
    (hrate : config.supportsSamplingRate rate = true) : rate ≠ 0 := by
  rintro rfl
  have hmem : 0 ∈ config.samplingRates := by simpa [supportsSamplingRate] using hrate
  exact ((usable_iff.mp h).1 .samplingRates).2 hmem

end PeerCalls.Config
