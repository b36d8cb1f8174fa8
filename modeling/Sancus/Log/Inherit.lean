import Sancus.CModel.Inherit
import Sancus.Log.Model

namespace Sancus.Log

open CModel

/-!
# Loggers — what a logger has from its ancestors

The levels, the prefix and the backend are looked for along the chain, by a walk each.  A logger
that does not define one of them is passed by, so that one that defines nothing makes no difference
wherever it stands.

* `Logger.ownMask`, `Logger.ownPrefix`, `Logger.ownBackend` — what a logger defines;
* `level_inherits`, `prefix_inherits`, `backend_inherits` — the nearest one that does decides;
* `logger_inheritance` — a logger that defines nothing can be put in anywhere.
-/

/-! ### What a logger defines -/

/-- A logger that defines nothing. -/
def Logger.nothing : Logger := ⟨none, 0, none, none⟩

/-- The mask, if it is not that for a mask of the parent. -/
def Logger.ownMask (log : Logger) : Option UInt32 := if log.mask ≠ 0 then some log.mask else none

/-- The logger itself, if it can tell the prefix. -/
def Logger.ownPrefix (ctx : Logger) : Option Logger :=
  if ctx.prefixer.isSome ∨ ctx.prefix_.isSome then some ctx else none

/-- The backend, if it can be called. -/
def Logger.ownBackend (logger : Logger) : Option SetBackend :=
  logger.backend.bind fun backend => if h : backend.f.isSome then some ⟨backend, h⟩ else none

/-- A level is shown by a logger with the mask `own`. -/
def shows (level own : UInt32) : Bool :=
  (level = 0 ∨ level &&& SANCUS_LOG_ERR ≠ 0) ∨ level &&& own ≠ 0

/-! ### The walks -/

/-- The levels that are shown are those of the nearest mask, or the normal ones. -/
theorem level_inherits (mask : UInt32) :
    Inherits Logger.ownMask (shows mask SANCUS_LOG_NORMAL) (shows mask)
      (sancusLoggerHasLevel · mask) := by
  by_cases hany : mask = 0 ∨ mask &&& SANCUS_LOG_ERR ≠ 0
  · -- no logger is asked for these
    have htrue : ∀ ctx, sancusLoggerHasLevel ctx mask = true := by
      intro ctx
      cases ctx <;> simp [sancusLoggerHasLevel, hany]
    intro ctx
    show sancusLoggerHasLevel ctx mask = _
    rw [htrue]
    cases ctx.findSome? Logger.ownMask <;> simp [shows, hany]
  · apply Inherits.of_cons
    · simp [sancusLoggerHasLevel, shows, hany]
    · intro log parent
      by_cases hown : log.mask = 0 <;>
        simp [sancusLoggerHasLevel, Logger.ownMask, shows, hany, hown]

/-- Without a buffer, nothing is looked for. -/
theorem logCtxPrefix_nothing {m : Mem} {buf : Option Nat} {size : Nat}
    (h : buf = none ∨ size = 0) (ctx : Chain) : logCtxPrefix ctx m buf size = (0, m) := by
  obtain rfl | rfl := h
  · cases ctx <;> rfl
  · cases ctx <;> cases buf <;> rfl

/-- The prefix is told by the nearest logger that can, and is otherwise empty. -/
theorem prefix_inherits (m : Mem) (buf : Option Nat) (size : Nat) :
    Inherits Logger.ownPrefix (0, m) (fun ctx => sancusLoggerRenderPrefix [ctx] m buf size)
      (sancusLoggerRenderPrefix · m buf size) := by
  unfold sancusLoggerRenderPrefix
  by_cases hnone : buf = none ∨ size = 0
  · simp only [logCtxPrefix_nothing hnone]
    intro ctx
    cases ctx.findSome? Logger.ownPrefix <;> rfl
  · obtain ⟨hbuf, hsize⟩ := not_or.mp hnone
    obtain ⟨buf, rfl⟩ := Option.ne_none_iff_exists'.mp hbuf
    have hpos : 0 < size := Nat.pos_of_ne_zero hsize
    apply Inherits.of_cons
    · rfl
    · intro ctx parent
      cases hprefixer : ctx.prefixer <;> cases hprefix : ctx.prefix_ <;>
        simp [logCtxPrefix, Logger.ownPrefix, hpos, hprefixer, hprefix]

/-- The backend is the nearest that can be called, or the one to fall back on. -/
theorem backend_inherits (fallback : SetBackend) :
    Inherits Logger.ownBackend fallback id (logFindBackend · fallback) := by
  apply Inherits.of_cons
  · rfl
  · intro logger parent
    rw [logFindBackend, Logger.ownBackend]
    cases logger.backend with
    | none => rfl
    | some backend =>
      by_cases h : backend.f.isSome = true <;> simp [h]

/-! ### Loggers that define nothing -/

/-- **Inheritance is transparent**: a logger that defines nothing can be put in anywhere, and no
    level, no prefix and no backend changes.  Each of them is that of the nearest logger that
    defines it, or the default. -/
theorem logger_inheritance (below above ctx : Chain) :
    ((∀ mask, sancusLoggerHasLevel (below ++ .nothing :: above) mask =
        sancusLoggerHasLevel (below ++ above) mask) ∧
      (∀ m buf size, sancusLoggerRenderPrefix (below ++ .nothing :: above) m buf size =
        sancusLoggerRenderPrefix (below ++ above) m buf size) ∧
      ∀ fallback, logFindBackend (below ++ .nothing :: above) fallback =
        logFindBackend (below ++ above) fallback) ∧
    (∀ mask, sancusLoggerHasLevel ctx mask =
      (ctx.findSome? Logger.ownMask).elim (shows mask SANCUS_LOG_NORMAL) (shows mask)) ∧
    (∀ m buf size, sancusLoggerRenderPrefix ctx m buf size =
      (ctx.findSome? Logger.ownPrefix).elim (0, m)
        fun logger => sancusLoggerRenderPrefix [logger] m buf size) ∧
    ∀ fallback, logFindBackend ctx fallback =
      (ctx.findSome? Logger.ownBackend).getD fallback := by
  refine ⟨⟨fun mask => ?_, fun m buf size => ?_, fun fallback => ?_⟩, fun mask => ?_,
    fun m buf size => ?_, fun fallback => ?_⟩
  · exact (level_inherits mask).insert rfl below above
  · exact (prefix_inherits m buf size).insert rfl below above
  · exact (backend_inherits fallback).insert rfl below above
  · exact level_inherits mask ctx
  · exact prefix_inherits m buf size ctx
  · refine (backend_inherits fallback ctx).trans ?_
    cases ctx.findSome? Logger.ownBackend <;> rfl

end Sancus.Log
