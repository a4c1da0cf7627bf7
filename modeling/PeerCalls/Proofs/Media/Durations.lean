import Mathlib.Algebra.Group.Nat.Defs
import PeerCalls.Proofs.Config.Usable
import PeerCalls.Proofs.Media.Owned

/-!
# How long a sound lasts

A sound lasts a whole number of samples, so it has one of the allowed durations exactly if ten
thousand times its samples are that many tenths of a millisecond times its rate.  The program
decides this in words, with a product that may overflow, a remainder and a quotient.

The longest duration at the highest rate is far below what a word holds.  So a count whose
product overflows has no allowed duration, and where the product is a word, remainder and quotient
are those of the numbers.  The rate that both divide by is one of the configuration, and a usable
configuration has no zero among its rates.
-/

namespace PeerCalls.AudioFrame

variable {frame : AudioFrame} {config : Config}

/-- The allowed durations are numbers far below what a word holds. -/
theorem mem_durations_iff {tenths : UInt64} :
    tenths ∈ durations ↔ tenths.toNat ∈ [25, 50, 100, 200, 400, 600] := by
  simp only [durations, List.mem_cons, List.not_mem_nil, or_false, ← UInt64.toNat_inj]
  rfl

theorem le_of_mem_durations {tenths : Nat} (h : tenths ∈ [25, 50, 100, 200, 400, 600]) :
    tenths ≤ 600 := by
  simp only [List.mem_cons, List.not_mem_nil, or_false] at h
  omega

theorem toNat_samplingRate_pos (hrate : frame.samplingRate ≠ 0) : 0 < frame.samplingRate.toNat :=
  Nat.pos_of_ne_zero fun hzero => hrate (UInt32.toNat_inj.mp hzero)

/-! ## The arithmetic of the check -/

/-- The rate and the number of samples, as they are taken to words of the same size. -/
theorem toNat_scaled_div_mod {scaled : UInt64}
    (hscaled : checkedProduct frame.sampleCount 10000 = some scaled) :
    scaled.toNat = frame.sampleCount.toNat * 10000 ∧
      (scaled % frame.samplingRate.toUInt64).toNat =
        frame.sampleCount.toNat * 10000 % frame.samplingRate.toNat ∧
      (scaled / frame.samplingRate.toUInt64).toNat =
        frame.sampleCount.toNat * 10000 / frame.samplingRate.toNat := by
  have hvalue : scaled.toNat = frame.sampleCount.toNat * 10000 :=
    checkedProduct_eq_some_iff.mp hscaled
  refine ⟨hvalue, ?_, ?_⟩
  · rw [UInt64.toNat_mod, hvalue, UInt32.toNat_toUInt64]
  · rw [UInt64.toNat_div, hvalue, UInt32.toNat_toUInt64]

/-- A count that lasts an allowed duration is far below the counts whose product overflows. -/
theorem exists_scaled {tenths : Nat} (hallowed : tenths ≤ 600)
    (hlasts : frame.sampleCount.toNat * 10000 = tenths * frame.samplingRate.toNat) :
    ∃ scaled, checkedProduct frame.sampleCount 10000 = some scaled := by
  have hfits : frame.sampleCount.toNat * 10000 < UInt64.size :=
    calc frame.sampleCount.toNat * 10000
        = tenths * frame.samplingRate.toNat := hlasts
      _ ≤ 600 * 2 ^ 32 := Nat.mul_le_mul hallowed (Nat.le_of_lt frame.samplingRate.toNat_lt)
      _ < UInt64.size := by decide
  exact ⟨_, if_pos hfits⟩

/-- The words decide what the numbers say, wherever there is a rate to divide by. -/
theorem hasAllowedDuration_iff (hrate : frame.samplingRate ≠ 0) :
    frame.hasAllowedDuration = true ↔
      ∃ tenths ∈ [25, 50, 100, 200, 400, 600],
        frame.sampleCount.toNat * 10000 = tenths * frame.samplingRate.toNat := by
  have hpos := toNat_samplingRate_pos hrate
  unfold hasAllowedDuration
  cases hscaled : checkedProduct frame.sampleCount 10000 with
  | none =>
      refine iff_of_false Bool.false_ne_true ?_
      rintro ⟨tenths, hmem, hlasts⟩
      obtain ⟨scaled, hsome⟩ := exists_scaled (le_of_mem_durations hmem) hlasts
      rw [hscaled] at hsome
      cases hsome
  | some scaled =>
      obtain ⟨-, hmod, hdiv⟩ := toNat_scaled_div_mod hscaled
      have hzero : scaled % frame.samplingRate.toUInt64 = 0 ↔
          frame.sampleCount.toNat * 10000 % frame.samplingRate.toNat = 0 := by
        rw [← UInt64.toNat_inj, hmod]
        rfl
      simp only [Bool.and_eq_true, decide_eq_true_eq, List.contains_iff_mem, mem_durations_iff,
        hzero, hdiv]
      constructor
      · rintro ⟨hdivides, hmem⟩
        exact ⟨_, hmem, (Nat.div_mul_cancel (Nat.dvd_of_mod_eq_zero hdivides)).symm⟩
      · rintro ⟨tenths, hmem, hlasts⟩
        rw [hlasts, Nat.mul_mod_left, Nat.mul_div_cancel _ hpos]
        exact ⟨rfl, hmem⟩

/-- The time that a frame of an allowed duration plays, in microseconds. -/
theorem microseconds_eq (hrate : frame.samplingRate ≠ 0) {tenths : Nat} (hallowed : tenths ≤ 600)
    (hlasts : frame.sampleCount.toNat * 10000 = tenths * frame.samplingRate.toNat) :
    frame.microseconds = 100 * tenths := by
  have hpos := toNat_samplingRate_pos hrate
  have hscaled : frame.sampleCount.toNat * 1000000 = 100 * tenths * frame.samplingRate.toNat :=
    calc frame.sampleCount.toNat * 1000000
        = 100 * (frame.sampleCount.toNat * 10000) := Nat.mul_left_comm _ 100 10000
      _ = 100 * tenths * frame.samplingRate.toNat := by rw [hlasts, Nat.mul_assoc]
  have hbelow : 100 * tenths ≤ UInt64.size - 1 := by
    unfold UInt64.size
    omega
  rw [microseconds, if_neg hrate, hscaled, Nat.mul_div_cancel _ hpos, Nat.min_eq_left hbelow]

/-! ## What is refused before the division -/

/-- Under a usable configuration no frame with a rate of zero gets as far as the division. -/
theorem refused_of_zero_rate (husable : config.Usable) (hzero : frame.samplingRate = 0) :
    ∃ fault ∈ [FrameError.missing "pcm", .unsupportedChannels frame.channels,
      .unsupportedSamplingRate 0], frame.validate config = .error fault := by
  have hunsupported : config.supportsSamplingRate frame.samplingRate = false :=
    Bool.eq_false_iff.mpr fun hsupported => husable.ne_zero_of_supported hsupported hzero
  unfold validate check
  split
  · exact ⟨_, by simp, rfl⟩
  split
  · exact ⟨_, by simp, rfl⟩
  simp only [hunsupported]
  exact ⟨.unsupportedSamplingRate 0, by simp, by rw [hzero]; rfl⟩

/-! ## The rule in numbers -/

/-- What is asked of a sound, in numbers without any bound. -/
structure Exact (frame : AudioFrame) (config : Config) : Prop where
  nonempty : frame.pcm ≠ #[]
  channels : frame.channels = 1 ∨ frame.channels = 2
  rate : frame.samplingRate ∈ config.samplingRates
  duration : ∃ tenths ∈ [25, 50, 100, 200, 400, 600],
    frame.sampleCount.toNat * 10000 = tenths * frame.samplingRate.toNat
  long : frame.sampleCount.toNat * frame.channels.toNat ≤ frame.pcm.size

theorem supportsSamplingRate_iff :
    config.supportsSamplingRate frame.samplingRate = true ↔
      frame.samplingRate ∈ config.samplingRates :=
  List.contains_iff_mem

theorem valid_iff_exact (husable : config.Usable) : frame.Valid config ↔ frame.Exact config := by
  have hfull : frame.pcm.isEmpty = false ↔ frame.pcm ≠ #[] := by simp
  constructor
  · intro h
    have hduration := (hasAllowedDuration_iff (husable.ne_zero_of_supported h.rate)).mp h.duration
    exact ⟨hfull.mp h.nonempty, h.channels, supportsSamplingRate_iff.mp h.rate, hduration, h.long⟩
  · intro h
    have hrate := supportsSamplingRate_iff.mpr h.rate
    have hduration := (hasAllowedDuration_iff (husable.ne_zero_of_supported hrate)).mpr h.duration
    exact ⟨hfull.mpr h.nonempty, h.channels, hrate, hduration, h.long⟩

/-- A sound is accepted exactly by the rule in numbers.  With a rate of zero it is refused before
anything is divided; what is computed in words are the numbers of the rule; where a product
overflows, the rule refuses the sound as well; and an accepted sound plays as long as the rule
says, a hundred microseconds for each tenth of a millisecond. -/
theorem accepted_iff_exact (husable : config.Usable) (frame : AudioFrame) :
    let count := frame.sampleCount.toNat
    let rate := frame.samplingRate.toNat
    (frame.validate config = .ok () ↔ frame.Exact config) ∧
    (frame.samplingRate = 0 →
      ∃ fault ∈ [FrameError.missing "pcm", .unsupportedChannels frame.channels,
        .unsupportedSamplingRate 0], frame.validate config = .error fault) ∧
    (∀ scaled, checkedProduct frame.sampleCount 10000 = some scaled →
      scaled.toNat = count * 10000 ∧
      (scaled % frame.samplingRate.toUInt64).toNat = count * 10000 % rate ∧
      (scaled / frame.samplingRate.toUInt64).toNat = count * 10000 / rate) ∧
    (∀ required, frame.requiredLength? = some required →
      required.toNat = count * frame.channels.toNat) ∧
    (checkedProduct frame.sampleCount 10000 = none ∨ frame.requiredLength? = none →
      ¬ frame.Exact config) ∧
    (frame.validate config = .ok () → ∀ tenths, count * 10000 = tenths * rate →
      frame.microseconds = 100 * tenths) ∧
    count * 1000000 < 2 ^ 128 := by
  intro count rate
  have haccepted : frame.validate config = .ok () ↔ frame.Exact config :=
    (@Payload.validate_eq_ok_iff config (.audio frame)).trans (valid_iff_exact husable)
  have hnonzero : frame.Exact config → frame.samplingRate ≠ 0 := fun h =>
    husable.ne_zero_of_supported (supportsSamplingRate_iff.mpr h.rate)
  refine ⟨haccepted, refused_of_zero_rate husable, fun scaled => toNat_scaled_div_mod, ?_, ?_, ?_,
    ?_⟩
  · intro required hrequired
    rw [checkedProduct_eq_some_iff.mp hrequired, UInt8.toNat_toUInt64]
  · intro hoverflow hexact
    have hduration := (hasAllowedDuration_iff (hnonzero hexact)).mpr hexact.duration
    obtain ⟨scaled, hscaled⟩ := scaled_of_duration hduration
    obtain ⟨required, hrequired, -⟩ := requiredLength?_of_duration hduration
    rcases hoverflow with hnone | hnone
    · rw [checkedProduct_eq_some_iff.mpr hscaled.1] at hnone
      cases hnone
    · rw [hrequired] at hnone
      cases hnone
  · intro hok tenths hlasts
    have hexact := haccepted.mp hok
    obtain ⟨allowed, hmem, hallowed⟩ := hexact.duration
    have hpos : 0 < rate := toNat_samplingRate_pos (hnonzero hexact)
    -- the duration of a sound is one number, so it is the allowed one
    obtain rfl : tenths = allowed :=
      Nat.eq_of_mul_eq_mul_right hpos (hlasts.symm.trans hallowed)
    exact microseconds_eq (hnonzero hexact) (le_of_mem_durations hmem) hlasts
  · calc count * 1000000
        < 2 ^ 64 * 2 ^ 64 := Nat.mul_lt_mul'' frame.sampleCount.toNat_lt (by decide)
      _ = 2 ^ 128 := by decide

/-- A configuration with a rate at which 2.5 ms are no whole number of samples. -/
def cdConfig : Config := { Config.standard with samplingRates := [44100, 11025] }

/-- Two channels of 40 ms at that rate. -/
def cdSound : AudioFrame := ⟨.replicate 882 0, 441, 2, 11025⟩

/-- The sound is accepted and plays 40 ms; with a sample less, or with as many samples as a word
can count, it is refused. -/
theorem accepted_iff_exact_cdSound :
    cdConfig.Usable ∧ cdSound.validate cdConfig = .ok () ∧ cdSound.microseconds = 40000 ∧
      { cdSound with sampleCount := 440 }.validate cdConfig ≠ .ok () ∧
      { cdSound with sampleCount := 18446744073709551615 }.validate cdConfig ≠ .ok () := by
  have husable : cdConfig.Usable := by decide
  obtain ⟨haccepted, -, -, -, -, hplays, -⟩ := accepted_iff_exact husable cdSound
  obtain ⟨hshorter, -⟩ := accepted_iff_exact husable { cdSound with sampleCount := 440 }
  obtain ⟨hlonger, -, -, -, hoverflow, -⟩ :=
    accepted_iff_exact husable { cdSound with sampleCount := 18446744073709551615 }
  have hok : cdSound.validate cdConfig = .ok () :=
    haccepted.mpr ⟨by decide, Or.inr rfl, by decide, ⟨400, by decide, rfl⟩, by simp [cdSound]⟩
  refine ⟨husable, hok, hplays hok 400 rfl, fun h => ?_, fun h => ?_⟩
  · obtain ⟨tenths, hmem, hlasts⟩ := (hshorter.mp h).duration
    change 440 * 10000 = tenths * 11025 at hlasts
    omega
  · exact hoverflow (Or.inl rfl) (hlonger.mp h)

end PeerCalls.AudioFrame
