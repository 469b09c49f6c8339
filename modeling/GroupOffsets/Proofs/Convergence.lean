import GroupOffsets.Proofs.Aloft
import GroupOffsets.Proofs.Cache

/-!
# What becomes of cached handles

Users cache handles of their own, refresh and invalidate, while resolutions are in flight.  A cached
handle gives way only to those who say so, a resolution whose topic was invalidated under way caches
nothing, and any other one tells those who wait for it of the handle that is cached.
-/

namespace GroupOffsets

open World (Choice Event Task)

namespace World

/-! ## Uses -/

/-- What is done to a world: an event, or a user caches a handle of its own. -/
inductive Use where
  | event (ch : Choice) (e : Event)
  | insertIfAbsent (tp : TopicPartition) (h : Handle)
  | refresh (tp : TopicPartition) (h : Handle)
  | register (order : List Nat) (h : Handle)

/-- The world after a use. -/
def use (w : World) : Use → World
  | .event ch e => w.step ch e
  | .insertIfAbsent tp h =>
    { w with bridge := { w.bridge with cache := (w.bridge.cache.insertIfAbsent tp h).2 } }
  | .refresh tp h => { w with bridge := { w.bridge with cache := w.bridge.cache.refresh tp h } }
  | .register order h => { w with bridge := (w.bridge.register order h).2.2 }

/-- The world after several uses. -/
def uses (w : World) (us : List Use) : World := us.foldl use w

/-- A flight goes on. -/
abbrev Use.fly (ch : Choice) (n : Nat) : Use := .event ch (.step (.flight n))

namespace Use

/-- Whether the handle on a partition is refreshed. -/
def refreshes (tp : TopicPartition) : Use → Bool
  | .refresh tp' _ => tp' == tp
  | .event _ (.operate (.refreshDetached p)) => p.name == tp
  | _ => false

/-- Whether the handle on a partition is invalidated, alone or with its topic. -/
def invalidates (tp : TopicPartition) : Use → Bool
  | .event _ (.operate (.invalidate tp')) | .event _ (.operate (.unregister tp')) => tp' == tp
  | .event _ (.operate (.invalidateTopic t)) | .event _ (.operate (.unregisterTopic t)) =>
    t == tp.topic
  | _ => false

/-- Whether a topic is invalidated: the whole, or any partition of it. -/
def renews (topic : String) : Use → Bool
  | .event _ (.operate (.invalidate tp)) | .event _ (.operate (.unregister tp)) =>
    tp.topic == topic
  | .event _ (.operate (.invalidateTopic t)) | .event _ (.operate (.unregisterTopic t)) =>
    t == topic
  | _ => false

end Use

variable {w : World} {u : Use} {us us' : List Use} {n : Nat} {f : Flight}
variable {tp : TopicPartition} {t : String} {h h' : Handle} {c c' : Cache} {g : Nat}

@[simp] theorem uses_nil : w.uses [] = w := rfl

@[simp] theorem uses_cons : w.uses (u :: us) = (w.use u).uses us := rfl

/-- What every use keeps is true after any number of them. -/
theorem uses_of_use (P : World → Prop) (huse : ∀ w u, P w → P (w.use u)) (h : P w)
    (us : List Use) : P (w.uses us) := by
  induction us generalizing w with
  | nil => exact h
  | cons u us ih => exact ih (huse w u h)

/-! ## The cache -/

/-- What a use makes of the cache. -/
inductive Tends (c : Cache) (u : Use) : Cache → Prop
  | keeps (quiet : ∀ t, u.renews t = false) : Tends c u c
  | adds {tp : TopicPartition} {h : Handle} (quiet : ∀ t, u.renews t = false) :
      Tends c u (c.insertIfAbsent tp h).2
  | refreshes {tp : TopicPartition} {h : Handle} (quiet : ∀ t, u.renews t = false)
      (self : u.refreshes tp = true) : Tends c u (c.refresh tp h)
  | invalidates {tp : TopicPartition} (renews : ∀ t, u.renews t = (tp.topic == t))
      (self : u.invalidates tp = true) : Tends c u (c.invalidate tp).2
  | invalidatesTopic {t : String} (renews : ∀ t', u.renews t' = (t == t'))
      (self : ∀ tp : TopicPartition, tp.topic = t → u.invalidates tp = true) :
      Tends c u (c.invalidateTopic t).2

theorem tends_operate (b : Bridge) (ch : Choice) (op : Operation) :
    Tends b.cache (.event ch (.operate op)) (b.operate op).2.cache := by
  cases op with
  | register tp =>
      simp only [Bridge.operate]
      split
      · exact .keeps fun _ ↦ rfl
      · exact .adds fun _ ↦ rfl
  | registerDetached p => exact .adds fun _ ↦ rfl
  | insertDetached p => exact .adds fun _ ↦ rfl
  | refreshDetached p => exact .refreshes (fun _ ↦ rfl) (beq_self_eq_true p.name)
  | invalidate tp => exact .invalidates (fun _ ↦ rfl) (beq_self_eq_true tp)
  | unregister tp => exact .invalidates (fun _ ↦ rfl) (beq_self_eq_true tp)
  | invalidateTopic t => exact .invalidatesTopic (fun _ ↦ rfl) fun tp htp ↦ beq_iff_eq.mpr htp.symm
  | unregisterTopic t => exact .invalidatesTopic (fun _ ↦ rfl) fun tp htp ↦ beq_iff_eq.mpr htp.symm
  | setRange | append | roll | trim | openCursor | resetCursor =>
      simp only [Bridge.operate, Bridge.onPartition]
      split <;> exact .keeps fun _ ↦ rfl
  | range | cursor | cursors =>
      simp only [Bridge.operate, Bridge.atPartition]
      split <;> exact .keeps fun _ ↦ rfl
  | _ => exact .keeps fun _ ↦ rfl

theorem cache_stepFlight_cases (b : Bridge) (draw : Option Nat) (now n : Nat) :
    (b.stepFlight draw now n).cache = b.cache ∨
      ∃ tp h, (b.stepFlight draw now n).cache = (b.cache.insertIfAbsent tp h).2 := by
  cases hf : b.aloft[n]? with
  | none => exact .inl (by rw [Bridge.stepFlight, hf])
  | some f =>
      have hflies := Bridge.flies_stepFlight draw now hf
      generalize b.obtains now n = obtained at hflies
      cases hflies with
      | waits departed same => exact .inl (by rw [same])
      | goesOn departed target generation cache flights aloft => exact .inl cache
      | lands lost cache flights aloft => exact .inl cache
      | meets boarding cached cache flights aloft => exact .inl cache
      | @finds h found cache flights aloft =>
          rw [cache, Cache.insertResolved]
          split
          · exact .inr ⟨f.target, h, rfl⟩
          · exact .inl rfl

/-- Whatever is no operation adds at most what a resolution has found. -/
theorem cache_step_cases (ch : Choice) {e : Event} (he : ∀ op, e ≠ .operate op) :
    (w.step ch e).bridge.cache = w.bridge.cache ∨
      ∃ tp h, (w.step ch e).bridge.cache = (w.bridge.cache.insertIfAbsent tp h).2 := by
  have hmove : Move w ch (w.step ch e) e := move_step e
  generalize w.step ch e = w' at hmove
  cases hmove with
  | @operates op bridge calls => exact absurd rfl (he op)
  | @flies n bridge calls => exact bridge ▸ cache_stepFlight_cases w.bridge ch.draw w.now n
  | @goes τ call was bridge self others =>
      obtain ⟨_, _, _, _, _, _, hb⟩ := w.bridge.stepCall_eq ch.order w.now call
      exact .inl (by rw [bridge, hb])
  | @cancels n call was bridge self others =>
      obtain ⟨_, hb⟩ := w.bridge.cancelCall_eq call
      exact .inl (by rw [bridge, hb])
  | begins bridge self others => exact .inl (by rw [bridge])
  | idles bridge calls => exact .inl (by rw [bridge])

theorem tends_use (w : World) (u : Use) : Tends w.bridge.cache u (w.use u).bridge.cache := by
  have quietly : ∀ {u c'}, (∀ t, u.renews t = false) → (c' = w.bridge.cache ∨
      ∃ tp h, c' = (w.bridge.cache.insertIfAbsent tp h).2) → Tends w.bridge.cache u c' := by
    rintro u _ hquiet (rfl | ⟨tp, h, rfl⟩)
    · exact .keeps hquiet
    · exact .adds hquiet
  cases u with
  | insertIfAbsent tp h => exact .adds fun _ ↦ rfl
  | refresh tp h => exact .refreshes (fun _ ↦ rfl) (beq_self_eq_true tp)
  | register order h => exact .adds fun _ ↦ rfl
  | event ch e =>
      cases e with
      | operate op => exact tends_operate w.bridge ch op
      | _ => exact quietly (fun _ ↦ rfl) (cache_step_cases ch fun op h ↦ nomatch h)

/-- A cached handle is thrown out only by who says so. -/
theorem Tends.invalidates_of_none (h : Tends c u c') (hsome : (c.get? tp).isSome)
    (hnone : c'.get? tp = none) : u.invalidates tp = true := by
  cases h with
  | keeps quiet => simp [hnone] at hsome
  | adds quiet =>
      rw [Cache.get?_insertIfAbsent, Option.or_eq_none_iff] at hnone
      simp [hnone] at hsome
  | refreshes quiet self =>
      rw [Cache.get?_refresh] at hnone
      split at hnone
      · cases hnone
      · simp [hnone] at hsome
  | invalidates renews self =>
      rw [Cache.get?_invalidate] at hnone
      split at hnone
      · rename_i htp
        rw [htp]
        exact self
      · simp [hnone] at hsome
  | invalidatesTopic renews self =>
      rw [Cache.get?_invalidateTopic] at hnone
      split at hnone
      · rename_i htp
        exact self tp htp
      · simp [hnone] at hsome

/-- A cached handle gives way to another one only when it is refreshed. -/
theorem Tends.refreshes_of_ne (hc : Tends c u c') (hold : c.get? tp = some h)
    (hnew : c'.get? tp = some h') (hne : h' ≠ h) : u.refreshes tp = true := by
  cases hc with
  | keeps quiet => exact absurd (Option.some.inj (hnew.symm.trans hold)) hne
  | adds quiet =>
      rw [Cache.get?_insertIfAbsent, hold, Option.some_or] at hnew
      exact absurd (Option.some.inj hnew).symm hne
  | refreshes quiet self =>
      rw [Cache.get?_refresh] at hnew
      split at hnew
      · rename_i htp
        rw [htp]
        exact self
      · exact absurd (Option.some.inj (hnew.symm.trans hold)) hne
  | invalidates renews self =>
      rw [Cache.get?_invalidate] at hnew
      split at hnew
      · cases hnew
      · exact absurd (Option.some.inj (hnew.symm.trans hold)) hne
  | invalidatesTopic renews self =>
      rw [Cache.get?_invalidateTopic] at hnew
      split at hnew
      · cases hnew
      · exact absurd (Option.some.inj (hnew.symm.trans hold)) hne

/-- The generations of a topic are its invalidations. -/
theorem Tends.generation_eq (hc : Tends c u c') (t : String) :
    c'.generation t = c.generation t + if u.renews t then 1 else 0 := by
  cases hc with
  | keeps quiet => simp [quiet]
  | adds quiet => simp [quiet]
  | refreshes quiet self => simp [quiet]
  | @invalidates tp renews self =>
      rw [Cache.generation_invalidate, renews]
      by_cases ht : tp.topic = t
      · simp [ht]
      · have hne : ¬t = tp.topic := fun heq ↦ ht heq.symm
        simp [ht, hne]
  | @invalidatesTopic t' renews self =>
      rw [Cache.generation_invalidateTopic, renews]
      by_cases ht : t' = t
      · simp [ht]
      · have hne : ¬t = t' := fun heq ↦ ht heq.symm
        simp [ht, hne]

theorem generation_uses (t : String) : (w.uses us).bridge.cache.generation t =
    w.bridge.cache.generation t + us.countP (Use.renews t) := by
  induction us generalizing w with
  | nil => rfl
  | cons u us ih =>
      rw [uses_cons, ih, (tends_use w u).generation_eq, List.countP_cons]
      omega

/-! ## Under way -/

/-- Resolution `n` has set out for a partition in this generation, and may have landed since. -/
structure Departed (w : World) (n : Nat) (tp : TopicPartition) (g : Nat) : Prop where
  old : n < w.bridge.flights.next
  aloft : ∀ {f}, w.bridge.aloft[n]? = some f →
    f.phase ≠ .boarding ∧ f.target = tp ∧ f.generation = g

/-- Whoever waits for resolution `n` needs this partition, and the resolution ended like this. -/
structure Landed (w : World) (n : Nat) (tp : TopicPartition) (o : Option Resolution) : Prop where
  outcome : w.bridge.flights.outcome? n = some o
  waits : ∀ {τ p d}, w.callOf τ = some (.waiting p n d) → p.target = tp

theorem aboard_use (h : w.Aboard) (u : Use) : (w.use u).Aboard := by
  cases u with
  | event ch e => exact aboard_step h ch e
  | _ => exact ⟨h.bridge.congr rfl rfl, fun hc ↦ (h.waits hc).congr rfl⟩

theorem aboard_uses (h : w.Aboard) (us : List Use) : (w.uses us).Aboard :=
  uses_of_use Aboard (fun _ u h ↦ aboard_use h u) h us

theorem departed_use (h : w.Departed n tp g) (u : Use) : (w.use u).Departed n tp g := by
  cases u with
  | event ch e =>
      refine ⟨Nat.lt_of_lt_of_le h.old (next_le_step w ch e), fun {f'} hf' ↦ ?_⟩
      obtain ⟨f, hf, rfl | ⟨hphase, htarget, hgeneration⟩⟩ := aloft_step h.old hf'
      · exact h.aloft hf
      · obtain ⟨hdeparted, rfl, rfl⟩ := h.aloft hf
        rw [Bridge.generationOf, if_neg hdeparted] at hgeneration
        exact ⟨hphase, htarget, hgeneration⟩
  | _ => exact ⟨h.old, h.aloft⟩

theorem departed_uses (h : w.Departed n tp g) (us : List Use) : (w.uses us).Departed n tp g :=
  uses_of_use (Departed · n tp g) (fun _ u h ↦ departed_use h u) h us

/-- With its first step a resolution has set out in the current generation. -/
theorem departed_fly (h : w.Aboard) (hf : w.bridge.aloft[n]? = some f)
    (hphase : f.phase = .boarding) (ch : Choice) : (w.use (.fly ch n)).Departed n f.target
      (w.bridge.cache.generation f.target.topic) := by
  refine ⟨?_, fun {f'} hf' ↦ ?_⟩
  · exact Nat.lt_of_lt_of_le (h.bridge.sound.works_old (h.bridge.works_eq hf))
      (next_le_step w ch _)
  · have hflies := Bridge.flies_stepFlight ch.draw w.now hf
    have hf' : (w.bridge.stepFlight ch.draw w.now n).aloft[n]? = some f' := hf'
    generalize w.bridge.obtains w.now n = obtained at hflies
    generalize w.bridge.stepFlight ch.draw w.now n = b' at hflies hf'
    have gone : b'.aloft ≠ w.bridge.aloft.erase n := by
      intro haloft
      rw [haloft, Std.ExtTreeMap.getElem?_erase_self] at hf'
      cases hf'
    cases hflies with
    | waits departed same => exact absurd hphase departed
    | goesOn departed target generation cache flights aloft =>
        rw [aloft, Std.ExtTreeMap.getElem?_insert_self] at hf'
        cases hf'
        rw [Bridge.generationOf, if_pos hphase] at generation
        exact ⟨departed, target, generation⟩
    | lands lost cache flights aloft => exact absurd aloft gone
    | meets boarding cached cache flights aloft => exact absurd aloft gone
    | finds found cache flights aloft => exact absurd aloft gone

/-- A resolution that set out in an earlier generation caches nothing. -/
theorem Departed.cache_fly (h : w.Departed n tp g) (hg : w.bridge.cache.generation tp.topic ≠ g)
    (ch : Choice) : (w.use (.fly ch n)).bridge.cache = w.bridge.cache := by
  change (w.bridge.stepFlight ch.draw w.now n).cache = w.bridge.cache
  cases hf : w.bridge.aloft[n]? with
  | none => rw [Bridge.stepFlight, hf]
  | some f =>
      obtain ⟨hdeparted, rfl, rfl⟩ := h.aloft hf
      have hflies := Bridge.flies_stepFlight ch.draw w.now hf
      generalize w.bridge.obtains w.now n = obtained at hflies
      cases hflies with
      | waits departed same => rw [same]
      | goesOn departed target generation cache flights aloft => exact cache
      | lands lost cache flights aloft => exact cache
      | meets boarding cached cache flights aloft => exact cache
      | finds found cache flights aloft =>
          rw [cache, Bridge.generationOf, if_neg hdeparted, Cache.insertResolved_of_ne hg]

/-- A resolution that obtains a handle in the generation in which it looks ends with the one that is
cached then. -/
theorem exists_landed_fly (hw : w.Aboard) (hf : w.bridge.aloft[n]? = some f)
    (hg : w.bridge.cache.generation f.target.topic = w.bridge.generationOf f)
    (hobtains : w.bridge.obtains w.now n = some h) (ch : Choice) :
    ∃ h', (w.use (.fly ch n)).bridge.cache.get? f.target = some h' ∧
      (w.use (.fly ch n)).Landed n f.target (some (.found h')) := by
  have hflies := Bridge.flies_stepFlight ch.draw w.now hf
  have hruns := hw.bridge.works_eq hf
  have hwaits : ∀ {τ p d}, (w.use (.fly ch n)).callOf τ = some (.waiting p n d) →
      p.target = f.target := by
    intro τ p d hc
    have hc : w.callOf τ = some (.waiting p n d) := by cases τ <;> exact hc
    exact (hw.waits hc).target hruns
  have hlands : ∀ {o}, (w.bridge.stepFlight ch.draw w.now n).flights = w.bridge.flights.finish n o →
      (w.use (.fly ch n)).Landed n f.target o := by
    intro o hflights
    refine ⟨?_, hwaits⟩
    change (w.bridge.stepFlight ch.draw w.now n).flights.outcome? n = some o
    rw [hflights]
    exact Flights.outcome?_finish_self hruns
  rw [hobtains] at hflies
  cases hflies with
  | meets boarding cached cache flights aloft =>
      refine ⟨h, ?_, hlands flights⟩
      change (w.bridge.stepFlight ch.draw w.now n).cache.get? f.target = some h
      rw [cache, cached]
  | finds found cache flights aloft =>
      rw [Cache.insertResolved_of_eq hg] at cache flights
      refine ⟨_, ?_, hlands flights⟩
      change (w.bridge.stepFlight ch.draw w.now n).cache.get? f.target = _
      rw [cache]
      exact Cache.get?_insertIfAbsent_self ..

/-- Nobody joins a resolution that has ended. -/
theorem landed_step {o : Option Resolution} (hw : w.Aboard) (h : w.Landed n tp o) (ch : Choice)
    (e : Event) : (w.step ch e).Landed n tp o := by
  refine ⟨outcome?_step hw ch e h.outcome, fun {τ p d} hc ↦ ?_⟩
  obtain hold | ⟨-, -, -, -, rfl, -⟩ := waiting_step_cases hc
  · exact h.waits hold
  · cases (hw.bridge.outcome?_joined p.target).symm.trans h.outcome

theorem landed_uses {o : Option Resolution} (hw : w.Aboard) (h : w.Landed n tp o)
    (us : List Use) : (w.uses us).Landed n tp o := by
  induction us generalizing w with
  | nil => exact h
  | cons u us ih =>
      refine ih (aboard_use hw u) ?_
      cases u with
      | event ch e => exact landed_step hw h ch e
      | _ => exact ⟨h.outcome, h.waits⟩

theorem generation_fly (ch : Choice) (t : String) :
    (w.use (.fly ch n)).bridge.cache.generation t = w.bridge.cache.generation t :=
  (tends_use w (.fly ch n)).generation_eq t

/-- The cache converges.  From the start of a bridge on, and whatever is done to it: a cached handle
is thrown out only by an invalidation and gives way to another one only by a refresh; a resolution
whose topic is invalidated after its first step caches nothing from then on; and one that obtains a
handle without that ends with the handle that is cached then, with which everybody goes on who waits
for it. -/
theorem cache_converges (now : Nat) (settings : Bridge.Settings) (store : Store)
    (manualClock : Option Nat) (us : List Use) :
    let w := (new now (.new settings store manualClock)).uses us
    (∀ u tp h, w.bridge.cache.get? tp = some h →
      ((w.use u).bridge.cache.get? tp = none → u.invalidates tp = true) ∧
      ∀ h', (w.use u).bridge.cache.get? tp = some h' → h' ≠ h → u.refreshes tp = true) ∧
    (∀ (n : Nat) f ch us' ch', w.bridge.aloft[n]? = some f → f.phase = .boarding →
      (∃ u ∈ us', u.renews f.target.topic = true) →
      let v := (w.use (.fly ch n)).uses us'
      (v.use (.fly ch' n)).bridge.cache = v.bridge.cache) ∧
    ∀ (n : Nat) f since ch h, w.bridge.aloft[n]? = some f → f.phase = .boarding →
      (since = [] ∨ ∃ ch₀ us', since = .fly ch₀ n :: us' ∧
        ∀ u ∈ us', u.renews f.target.topic = false) →
      let v := w.uses since
      v.bridge.obtains v.now n = some h →
      let x := v.use (.fly ch n)
      ∃ h', x.bridge.cache.get? f.target = some h' ∧
        x.bridge.flights.outcome? n = some (some (.found h')) ∧
        ∀ later τ p d,
          let y := x.uses later
          y.callOf τ = some (.waiting p n d) → p.target = f.target ∧ ∀ order,
            y.bridge.stepCall order y.now (.waiting p n d) = y.bridge.deliver order p (.ok h') := by
  intro w
  have hw : w.Aboard := aboard_uses (aboard_new (Bridge.aboard_new ..) now) us
  refine ⟨fun u tp h hold ↦ ⟨fun hnone ↦ ?_, fun h' hnew hne ↦ ?_⟩,
    fun n f ch us' ch' hf hphase hrenewed ↦ ?_,
    fun n f since ch h hf hphase hsince ↦ ?_⟩
  · exact (tends_use w u).invalidates_of_none (hold ▸ rfl) hnone
  · exact (tends_use w u).refreshes_of_ne hold hnew hne
  · have hrenewals : 0 < us'.countP (Use.renews f.target.topic) := List.countP_pos_iff.mpr hrenewed
    apply (departed_uses (departed_fly hw hf hphase ch) us').cache_fly
    rw [generation_uses, generation_fly]
    omega
  · intro v hobtains x
    have hv : v.Aboard := aboard_uses hw since
    -- the resolution looks in the generation that the topic still has
    have hflight : ∃ f', v.bridge.aloft[n]? = some f' ∧ f'.target = f.target ∧
        v.bridge.cache.generation f'.target.topic = v.bridge.generationOf f' := by
      rcases hsince with rfl | ⟨ch₀, us', rfl, hquiet⟩
      · exact ⟨f, hf, rfl, by rw [Bridge.generationOf, if_pos hphase]⟩
      · obtain ⟨f', hf', -⟩ := Option.bind_eq_some_iff.mp hobtains
        obtain ⟨hdeparted, htarget, hgeneration⟩ :=
          (departed_uses (departed_fly hw hf hphase ch₀) us').aloft hf'
        have hnone : us'.countP (Use.renews f.target.topic) = 0 :=
          List.countP_eq_zero.mpr fun u hu ↦ by simp [hquiet u hu]
        refine ⟨f', hf', htarget, ?_⟩
        rw [Bridge.generationOf, if_neg hdeparted, hgeneration, htarget]
        simp only [v, uses_cons, generation_uses, generation_fly, hnone, Nat.add_zero]
    obtain ⟨f', hf', htarget, hgeneration⟩ := hflight
    obtain ⟨h', hcached, hlanded⟩ := exists_landed_fly hv hf' hgeneration hobtains ch
    rw [htarget] at hcached hlanded
    refine ⟨h', hcached, hlanded.outcome, fun later τ p d ↦ ?_⟩
    intro y hc
    have hy : y.Landed n f.target (some (.found h')) :=
      landed_uses (aboard_use hv (.fly ch n)) hlanded later
    refine ⟨hy.waits hc, fun order ↦ ?_⟩
    simp only [Bridge.stepCall, hy.outcome, Bridge.receive]

/-- A resolution that is under way while another partition of its topic is invalidated does not
cache the handle that it finds; without that, it comes to the handle that is cached then. -/
theorem found_while_invalidated :
    let w := (new 0 (.new ⟨[], ⟨1, 1, 10, 3⟩, 100⟩ (.new "node" ∅) none)).uses
      [.event .plain (.operate (.createPartition ⟨"t", 0⟩)),
        .event .plain (.operate (.setLookupDelay 5)), .event .plain (.call (.resolve ⟨"t", 0⟩)),
        .event .plain (.step (.call 0)), .event .plain (.step (.call 0))]
    let v := (w.use (.fly .plain 0)).uses
      [.event .plain (.operate (.invalidate ⟨"t", 7⟩)), .event .plain (.elapse 5)]
    let v' := (w.use (.fly .plain 0)).uses [.event .plain (.elapse 5)]
    (v.use (.fly .plain 0)).bridge.cache = v.bridge.cache ∧
      ∃ h, (v'.use (.fly .plain 0)).bridge.cache.get? ⟨"t", 0⟩ = some h ∧
        (v'.use (.fly .plain 0)).bridge.flights.outcome? 0 = some (some (.found h)) := by
  intro w v v'
  obtain ⟨-, hstale, hfresh⟩ := cache_converges 0 ⟨[], ⟨1, 1, 10, 3⟩, 100⟩ (.new "node" ∅) none
    [.event .plain (.operate (.createPartition ⟨"t", 0⟩)),
      .event .plain (.operate (.setLookupDelay 5)), .event .plain (.call (.resolve ⟨"t", 0⟩)),
      .event .plain (.step (.call 0)), .event .plain (.step (.call 0))]
  constructor
  · exact hstale 0 _ .plain _ .plain rfl rfl ⟨_, List.mem_cons_self .., rfl⟩
  · obtain ⟨h, hcached, houtcome, -⟩ := hfresh 0 _ [.fly .plain 0, .event .plain (.elapse 5)] .plain
      ⟨0, none⟩ rfl rfl (.inr ⟨.plain, _, rfl, by simp [Use.renews]⟩) rfl
    exact ⟨h, hcached, houtcome⟩

end World

end GroupOffsets
