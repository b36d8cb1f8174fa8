import Sancus.CModel.Mask
import Sancus.Log.Inherit

namespace Sancus.Log

open CModel

/-!
# Loggers — changes of the mask

A mask of 0 stands for the one of the parent.  A logger without a mask of its own keeps only the
levels that are added to it, and one that all levels are taken from has those of the parent.

* `sancusLoggerExtendMask`, `sancusLoggerUnsetMask` — the code;
* `effectiveMask` — the mask that decides, of the logger or of an ancestor;
* `extend_mask_keeps_iff` — when extending keeps the levels that are shown;
* `unset_mask_hides_iff` — when unsetting hides its levels and no others.
-/

/-! ### The code -/

/-- `sancus_bit_cms` -/
def sancusBitCms (old value mask : UInt64) (shift : UInt32) : UInt64 :=
  let old := old &&& ~~~(mask <<< shift.toUInt64)
  let value := (value &&& mask) <<< shift.toUInt64
  value ||| old

/-- `sancus_logger_extend_mask` -/
def sancusLoggerExtendMask (log : Logger) (mask : UInt32) : Logger :=
  { log with mask := (sancusBitCms log.mask.toUInt64 mask.toUInt64 mask.toUInt64 0).toUInt32 }

/-- `sancus_logger_unset_mask` -/
def sancusLoggerUnsetMask (log : Logger) (mask : UInt32) : Logger :=
  { log with mask := (sancusBitCms log.mask.toUInt64 0 mask.toUInt64 0).toUInt32 }

variable {log : Logger} {parent : Chain} {m q : UInt32}

theorem extendMask_mask (log : Logger) (m : UInt32) :
    (sancusLoggerExtendMask log m).mask = log.mask ||| m := by
  have hcms : (sancusLoggerExtendMask log m).mask = (m &&& m) ||| (log.mask &&& ~~~m) := by
    simp [sancusLoggerExtendMask, sancusBitCms]
  rw [hcms]
  apply Mask.ext_has
  intro i
  simp only [Mask.has_or, Mask.has_and, Mask.has_not]
  tauto

theorem unsetMask_mask (log : Logger) (m : UInt32) :
    (sancusLoggerUnsetMask log m).mask = log.mask &&& ~~~m := by
  simp [sancusLoggerUnsetMask, sancusBitCms]

/-! ### The mask that decides -/

/-- The mask of the nearest logger that has one, or the normal one. -/
def effectiveMask (ctx : Chain) : UInt32 := (ctx.findSome? Logger.ownMask).getD SANCUS_LOG_NORMAL

theorem effectiveMask_cons (log : Logger) (parent : Chain) :
    effectiveMask (log :: parent) = if log.mask ≠ 0 then log.mask else effectiveMask parent := by
  by_cases hmask : log.mask = 0 <;> simp [effectiveMask, Logger.ownMask, hmask]

/-- A level is shown if it has a bit that the mask has, or that of errors. -/
theorem hasLevel_iff {ctx : Chain} : sancusLoggerHasLevel ctx q = true ↔
    q = 0 ∨ ∃ i, Mask.Has q i ∧ (Mask.Has SANCUS_LOG_ERR i ∨ Mask.Has (effectiveMask ctx) i) := by
  have h : sancusLoggerHasLevel ctx q = shows q (effectiveMask ctx) := by
    refine (level_inherits q ctx).trans ?_
    rw [effectiveMask]
    cases ctx.findSome? Logger.ownMask <;> rfl
  rw [h, shows, decide_eq_true_eq, Mask.ne_zero_iff, Mask.ne_zero_iff, or_assoc, ← exists_or]
  simp only [Mask.has_and, ← and_or_left]

/-! ### Extending -/

/-- What extending a mask should do. -/
structure ExtendKeeps (log : Logger) (parent : Chain) (m : UInt32) : Prop where
  kept : ∀ q, sancusLoggerHasLevel (log :: parent) q = true →
    sancusLoggerHasLevel (sancusLoggerExtendMask log m :: parent) q = true
  added : sancusLoggerHasLevel (sancusLoggerExtendMask log m :: parent) m = true

/-- All levels of a chain are shown by another one exactly if its mask has all bits, but for that
    of errors. -/
theorem hasLevel_mono_iff {ctx ctx' : Chain} :
    (∀ q, sancusLoggerHasLevel ctx q = true → sancusLoggerHasLevel ctx' q = true) ↔
      effectiveMask ctx &&& ~~~SANCUS_LOG_ERR &&& ~~~effectiveMask ctx' = 0 := by
  simp only [hasLevel_iff]
  refine ⟨?_, ?_⟩
  · intro h
    by_contra hne
    obtain ⟨i, hi⟩ := Mask.ne_zero_iff.mp hne
    have hown : Mask.Has (effectiveMask ctx) i := by
      simp only [Mask.has_and] at hi
      exact hi.1.1
    -- the bits that are missing make a level that is shown no more
    obtain hzero | ⟨j, hj, hor⟩ := h _ (.inr ⟨i, hi, .inr hown⟩)
    · exact hne hzero
    · simp only [Mask.has_and, Mask.has_not] at hj
      exact hor.elim hj.1.2 hj.2
  · intro hsub q hq
    refine hq.imp_right ?_
    rintro ⟨i, hi, hor⟩
    refine ⟨i, hi, ?_⟩
    simp only [Mask.eq_zero_iff, Mask.has_and, Mask.has_not] at hsub
    have hall := hsub i
    tauto

/-- The levels that are added are shown. -/
theorem hasLevel_extendMask (log : Logger) (parent : Chain) (m : UInt32) :
    sancusLoggerHasLevel (sancusLoggerExtendMask log m :: parent) m = true := by
  rw [hasLevel_iff, effectiveMask_cons, extendMask_mask]
  by_cases hm : m = 0
  · exact .inl hm
  · obtain ⟨i, hi⟩ := Mask.ne_zero_iff.mp hm
    have hor : Mask.Has (log.mask ||| m) i := by simp [hi]
    rw [if_pos (Mask.ne_zero_iff.mpr ⟨i, hor⟩)]
    exact .inr ⟨i, hi, .inr hor⟩

/-- **Extending a mask** keeps the levels that are shown exactly if the logger has a mask of its
    own, or nothing is added, or all is added that it has from its ancestors. -/
theorem extend_mask_keeps_iff (log : Logger) (parent : Chain) (m : UInt32) :
    ExtendKeeps log parent m ↔
      log.mask ≠ 0 ∨ m = 0 ∨ effectiveMask parent &&& ~~~SANCUS_LOG_ERR &&& ~~~m = 0 := by
  have hkeeps : ExtendKeeps log parent m ↔
      effectiveMask (log :: parent) &&& ~~~SANCUS_LOG_ERR &&&
        ~~~effectiveMask (sancusLoggerExtendMask log m :: parent) = 0 := by
    rw [← hasLevel_mono_iff]
    exact ⟨fun h => h.kept, fun h => ⟨h, hasLevel_extendMask log parent m⟩⟩
  rw [hkeeps, effectiveMask_cons, effectiveMask_cons, extendMask_mask]
  by_cases hmask : log.mask = 0
  · by_cases hm : m = 0
    · -- the mask is still that of an ancestor
      have hsame : effectiveMask parent &&& ~~~SANCUS_LOG_ERR &&& ~~~effectiveMask parent = 0 := by
        rw [Mask.and_not_eq_zero_iff]
        intro i hi
        exact (Mask.has_and.mp hi).1
      simpa [hmask, hm] using hsame
    · simp [hmask, hm]
  · have hor : log.mask ||| m ≠ 0 := by
      obtain ⟨i, hi⟩ := Mask.ne_zero_iff.mp hmask
      exact Mask.ne_zero_iff.mpr ⟨i, by simp [hi]⟩
    refine iff_of_true ?_ (.inl hmask)
    rw [if_pos hmask, if_pos hor, Mask.and_not_eq_zero_iff]
    intro i hi
    simp only [Mask.has_and] at hi
    simp [hi]

/-- A logger that has the normal levels from its parent loses them when it is to show another
    one. -/
theorem extend_mask_silences :
    ¬ ExtendKeeps .nothing [{ Logger.nothing with mask := SANCUS_LOG_NORMAL }] 8 := by
  intro h
  exact absurd (h.kept 2 (by decide)) (by decide)

/-! ### Unsetting -/

/-- What unsetting a mask should do. -/
structure UnsetHides (log : Logger) (parent : Chain) (m : UInt32) : Prop where
  hidden : ∀ q, q ≠ 0 → q &&& ~~~m = 0 →
    sancusLoggerHasLevel (sancusLoggerUnsetMask log m :: parent) q = false
  kept : ∀ q, q &&& m = 0 → sancusLoggerHasLevel (sancusLoggerUnsetMask log m :: parent) q =
    sancusLoggerHasLevel (log :: parent) q

theorem effectiveMask_unset (log : Logger) (parent : Chain) (m : UInt32) :
    effectiveMask (sancusLoggerUnsetMask log m :: parent) =
      if log.mask &&& ~~~m ≠ 0 then log.mask &&& ~~~m else effectiveMask parent := by
  rw [effectiveMask_cons, unsetMask_mask]

/-- It does so if the new mask has no bit that is unset, and all others that it had, but for that
    of errors. -/
theorem unsetHides_of_bits (hmask : log.mask ≠ 0)
    (hm : ∀ i, Mask.Has m i → ¬ Mask.Has SANCUS_LOG_ERR i)
    (hunset : ∀ i, Mask.Has m i →
      ¬ Mask.Has (effectiveMask (sancusLoggerUnsetMask log m :: parent)) i)
    (hother : ∀ i, ¬ Mask.Has m i → ¬ Mask.Has SANCUS_LOG_ERR i →
      (Mask.Has (effectiveMask (sancusLoggerUnsetMask log m :: parent)) i ↔
        Mask.Has log.mask i)) :
    UnsetHides log parent m := by
  refine ⟨fun q hne hsub => ?_, fun q hdisjoint => ?_⟩
  · rw [Mask.and_not_eq_zero_iff] at hsub
    rw [← Bool.not_eq_true, hasLevel_iff]
    rintro (hzero | ⟨i, hi, hor⟩)
    · exact hne hzero
    · exact hor.elim (hm i (hsub i hi)) (hunset i (hsub i hi))
  · rw [Mask.and_eq_zero_iff] at hdisjoint
    rw [Bool.eq_iff_iff, hasLevel_iff, hasLevel_iff, effectiveMask_cons log, if_pos hmask]
    refine or_congr_right (exists_congr fun i => and_congr_right fun hi => ?_)
    have hsame := hother i (hdisjoint i hi)
    tauto

/-- A logger with a level left shows that one. -/
theorem unsetHides_of_left (hmask : log.mask ≠ 0)
    (hm : ∀ i, Mask.Has m i → ¬ Mask.Has SANCUS_LOG_ERR i) (hleft : log.mask &&& ~~~m ≠ 0) :
    UnsetHides log parent m := by
  apply unsetHides_of_bits hmask hm <;> rw [effectiveMask_unset, if_pos hleft]
  · intro i hi
    simp [hi]
  · intro i hi _
    simp [hi]

/-- A logger with no level left shows those of its ancestors, and must not have any. -/
theorem unsetHides_iff_of_none_left (hmask : log.mask ≠ 0)
    (hm : ∀ i, Mask.Has m i → ¬ Mask.Has SANCUS_LOG_ERR i) (hnone : log.mask &&& ~~~m = 0) :
    UnsetHides log parent m ↔
      ∀ i, Mask.Has (effectiveMask parent) i → Mask.Has SANCUS_LOG_ERR i := by
  have hsub := Mask.and_not_eq_zero_iff.mp hnone
  have hparent :
      effectiveMask (sancusLoggerUnsetMask log m :: parent) = effectiveMask parent := by
    rw [effectiveMask_unset, if_neg (not_not.mpr hnone)]
  refine ⟨?_, ?_⟩
  · intro h i hi
    by_contra herr
    by_cases hmi : Mask.Has m i
    · -- an ancestor shows a level that is unset
      have hhidden := h.hidden (effectiveMask parent &&& m)
        (Mask.ne_zero_iff.mpr ⟨i, by simp [hi, hmi]⟩) (Mask.and_not_eq_zero_iff.mpr (by simp))
      rw [← Bool.not_eq_true, hasLevel_iff, hparent] at hhidden
      exact hhidden (.inr ⟨i, by simp [hi, hmi], .inr hi⟩)
    · -- an ancestor shows a level that was not shown
      have hkept := h.kept (effectiveMask parent &&& ~~~SANCUS_LOG_ERR &&& ~~~m)
        (Mask.and_eq_zero_iff.mpr (by simp))
      rw [Bool.eq_iff_iff, hasLevel_iff, hasLevel_iff, hparent, effectiveMask_cons log,
        if_pos hmask] at hkept
      obtain hzero | ⟨j, hj, hor⟩ := hkept.mp (.inr ⟨i, by simp [hi, herr, hmi], .inr hi⟩)
      · exact Mask.eq_zero_iff.mp hzero i (by simp [hi, herr, hmi])
      · simp only [Mask.has_and, Mask.has_not] at hj
        exact hor.elim hj.1.2 fun hjmask => hj.2 (hsub j hjmask)
  · intro herr
    apply unsetHides_of_bits hmask hm <;> rw [hparent]
    · exact fun i hi hown => hm i hi (herr i hown)
    · intro i hi hnot
      exact iff_of_false (fun hown => hnot (herr i hown)) fun hown => hi (hsub i hown)

/-- **Unsetting a mask** hides its levels and no others exactly if some level of the mask is left,
    or the ancestors show errors only. -/
theorem unset_mask_hides_iff (log : Logger) (parent : Chain) (m : UInt32)
    (hmask : log.mask ≠ 0) (hm : m &&& SANCUS_LOG_ERR = 0) :
    UnsetHides log parent m ↔
      log.mask &&& ~~~m ≠ 0 ∨ effectiveMask parent &&& ~~~SANCUS_LOG_ERR = 0 := by
  rw [Mask.and_eq_zero_iff] at hm
  by_cases hleft : log.mask &&& ~~~m = 0
  · rw [unsetHides_iff_of_none_left hmask hm hleft, Mask.and_not_eq_zero_iff]
    exact (or_iff_right (not_not.mpr hleft)).symm
  · exact iff_of_true (unsetHides_of_left hmask hm hleft) (.inl hleft)

/-- A logger of two levels hides the one. -/
theorem unset_mask_hides_iff_two :
    UnsetHides { Logger.nothing with mask := 6 } [] 2 ↔
      (6 : UInt32) &&& ~~~2 ≠ 0 ∨ effectiveMask [] &&& ~~~SANCUS_LOG_ERR = 0 :=
  unset_mask_hides_iff { Logger.nothing with mask := 6 } [] 2 (by decide) (by decide)

/-- A logger that all levels are taken from shows the normal ones. -/
theorem unset_mask_restores :
    ({ Logger.nothing with mask := 2 } : Logger).mask ≠ 0 ∧ (2 : UInt32) &&& SANCUS_LOG_ERR = 0 ∧
      ¬ UnsetHides { Logger.nothing with mask := 2 } [] 2 := by
  refine ⟨by decide, by decide, fun h => ?_⟩
  exact absurd (h.hidden 2 (by decide) (by decide)) (by decide)

end Sancus.Log
