import GroupOffsets.Proofs.Isolation.Bridge
import GroupOffsets.Proofs.Persist.Run
import GroupOffsets.Proofs.Persist.Tally
import GroupOffsets.Proofs.Teardown

/-!
# System groups are isolated

The store looks after the cursors of the groups of the system.  No call or resolution and no
operation on the table, the cache or a registration gives such a group a cursor or moves the one
that it has: `World.PersistsUsers` says that no persist pass is ever about to.  And they do not
depend on these cursors: runs over two stores that are alike but for them end in the same table,
with the same answers, and with the same cursors of all other groups.
-/

namespace GroupOffsets

open World (Choice Event Task Use)

/-! ## Two runs -/

namespace Service

variable {hidden : String → Bool} {created : List TopicPartition} {b b' : Bridge}

theorem alikeBut_stepSweeper (h : b.AlikeBut hidden created b') (s : Service) (tickFirst : Bool)
    (order : Itinerary) (now : Nat) :
    (s.stepSweeper b' tickFirst order now).2 = (s.stepSweeper b tickFirst order now).2 ∧
      (s.stepSweeper b tickFirst order now).1.AlikeBut hidden created
        (s.stepSweeper b' tickFirst order now).1 := by
  rw [stepSweeper, stepSweeper]
  cases s.sweeper with
  | begun => exact ⟨rfl, h⟩
  | idle tickAt =>
      dsimp only
      split <;> exact ⟨rfl, h⟩
  | passing tickAt pass =>
      obtain ⟨hpass, halike⟩ := h.stepCall order now pass
      dsimp only
      rw [hpass]
      exact ⟨rfl, halike⟩
  | ended => exact ⟨rfl, h⟩

theorem alikeBut_stepPersister (h : b.AlikeBut hidden created b') (s : Service) (tickFirst : Bool)
    (order : Itinerary) (now : Nat) :
    (s.stepPersister b' tickFirst order now).2 = (s.stepPersister b tickFirst order now).2 ∧
      (s.stepPersister b tickFirst order now).1.AlikeBut hidden created
        (s.stepPersister b' tickFirst order now).1 := by
  rw [stepPersister, stepPersister]
  cases s.persister with
  | begun => exact ⟨rfl, h⟩
  | idle tickAt =>
      dsimp only
      split <;> exact ⟨rfl, h⟩
  | passing tickAt pass =>
      obtain ⟨hpass, halike⟩ := h.stepCall order now pass
      dsimp only
      rw [hpass]
      exact ⟨rfl, halike⟩
  | ended => exact ⟨rfl, h⟩

end Service

namespace World

variable {hidden : String → Bool} {created : List TopicPartition} {w w' : World} {u : Use}
variable {us : List Use} {e : Event}

/-- Two worlds that differ at most in the cursors of hidden groups. -/
structure AlikeBut (hidden : String → Bool) (created : List TopicPartition) (w w' : World) :
    Prop where
  same : w' = { w with bridge := w'.bridge }
  bridge : w.bridge.AlikeBut hidden created w'.bridge

theorem AlikeBut.exists_eq (h : w.AlikeBut hidden created w') :
    ∃ bridge, w' = { w with bridge } ∧ w.bridge.AlikeBut hidden created bridge :=
  ⟨_, h.same, h.bridge⟩

theorem AlikeBut.run (h : w.AlikeBut hidden created w') (ch : Choice) (τ : Task) :
    (w.run ch τ).AlikeBut hidden created (w'.run ch τ) := by
  obtain ⟨bridge, rfl, hb⟩ := h.exists_eq
  cases τ with
  | flight n => exact ⟨rfl, hb.stepFlight ch.draw w.now n⟩
  | call n =>
      simp only [World.run]
      cases w.calls[n]? with
      | none => exact h
      | some c =>
          obtain ⟨hc, halike⟩ := hb.stepCall ch.order w.now c
          dsimp only
          rw [hc]
          exact ⟨rfl, halike⟩
  | sweeper =>
      obtain ⟨now, b, calls, nextCall, service⟩ := w
      cases service with
      | none => exact h
      | some s =>
          obtain ⟨hs, halike⟩ := s.alikeBut_stepSweeper hb ch.tickFirst ch.order now
          simp only [World.run]
          rw [hs]
          exact ⟨rfl, halike⟩
  | persister =>
      obtain ⟨now, b, calls, nextCall, service⟩ := w
      cases service with
      | none => exact h
      | some s =>
          obtain ⟨hs, halike⟩ := s.alikeBut_stepPersister hb ch.tickFirst ch.order now
          simp only [World.run]
          rw [hs]
          exact ⟨rfl, halike⟩

/-- An event keeps worlds alike. -/
theorem AlikeBut.step (h : w.AlikeBut hidden created w') (hsystem : w.bridge.isSystemGroup = hidden)
    (ch : Choice) (he : ∀ tp, e = .operate (.createPartition tp) → tp ∈ created) :
    (w.step ch e).AlikeBut hidden created (w'.step ch e) := by
  obtain ⟨bridge, rfl, hb⟩ := h.exists_eq
  cases e with
  | operate op =>
      refine ⟨rfl, hb.operate hsystem ?_⟩
      rintro tp rfl
      exact he tp rfl
  | step τ => exact h.run ch τ
  | cancel n =>
      simp only [World.step, cancel]
      cases w.calls[n]? with
      | none => exact h
      | some c => exact ⟨rfl, hb.cancelCall c⟩
  | _ => exact ⟨rfl, hb⟩

theorem AlikeBut.use (h : w.AlikeBut hidden created w') (hsystem : w.bridge.isSystemGroup = hidden)
    (hu : ∀ ch tp, u = .event ch (.operate (.createPartition tp)) → tp ∈ created) :
    (w.use u).AlikeBut hidden created (w'.use u) := by
  cases u with
  | event ch e =>
      refine h.step hsystem ch ?_
      rintro tp rfl
      exact hu ch tp rfl
  | register order hd =>
      obtain ⟨bridge, rfl, hb⟩ := h.exists_eq
      exact ⟨rfl, (hb.register hsystem order hd).2⟩
  | insertIfAbsent tp hd =>
      obtain ⟨bridge, rfl, hb⟩ := h.exists_eq
      obtain ⟨store, rfl, hs⟩ := hb.exists_eq
      exact ⟨rfl, rfl, hs⟩
  | refresh tp hd =>
      obtain ⟨bridge, rfl, hb⟩ := h.exists_eq
      obtain ⟨store, rfl, hs⟩ := hb.exists_eq
      exact ⟨rfl, rfl, hs⟩

/-- A group of the system stays one. -/
theorem isSystemGroup_uses : (w.uses us).bridge.isSystemGroup = w.bridge.isSystemGroup := by
  funext g
  rw [Bridge.isSystemGroup, Bridge.isSystemGroup, settings_uses]

/-- The same run keeps worlds alike. -/
theorem AlikeBut.uses (h : w.AlikeBut hidden created w') (hsystem : w.bridge.isSystemGroup = hidden)
    (hus : ∀ ch tp, .event ch (.operate (.createPartition tp)) ∈ us → tp ∈ created) :
    (w.uses us).AlikeBut hidden created (w'.uses us) := by
  induction us using List.reverseRecOn with
  | nil => exact h
  | append_singleton us u ih =>
      have hinit := ih fun ch tp hmem ↦ hus ch tp (List.mem_append_left _ hmem)
      rw [uses_append, uses_append]
      refine hinit.use (isSystemGroup_uses.trans hsystem) ?_
      rintro ch tp rfl
      exact hus ch tp (by simp)

end World

/-! ## What is never written -/

/-- A pass that writes for a group of users goes on with one. -/
theorem Persist.user_answer {order : Itinerary} {t : OffsetTable} {isSystem : String → Bool}
    {s s' : Persist} {moved : Bool} (hs : isSystem s.key.group = false)
    (h : s.answer order t isSystem moved = .asks s') : isSystem s'.key.group = false := by
  rw [answer] at h
  split at h
  · rename_i s'' hseek
    cases h
    rwa [(seek_keys hseek).1]
  · exact (advance_reads h).user

namespace World

variable {w : World}

/-- Every persist pass under way is about to write for a group of users. -/
def PersistsUsers (w : World) : Prop :=
  ∀ τ c t s, w.callOf τ = some c → c.purpose? = some (.persist t s) →
    w.bridge.isSystemGroup s.key.group = false

theorem persistsUsers_step (h : w.PersistsUsers) (ch : Choice) (e : Event) :
    (w.step ch e).PersistsUsers := by
  intro τ c' t s hc hs
  rw [isSystemGroup_step]
  rcases callOf_step_cases hc with hsame | ⟨r, rfl⟩ | ⟨c, hwas, rfl⟩
  · exact h τ c' t s hsame hs
  · cases hs
  · -- a pass comes to an entry only after it was found not to be of the system
    rcases Bridge.persist_of_stepCall hs with hsame | hstart | ⟨s₀, moved, hs₀, hanswer⟩
    · exact h τ c t s hwas hsame
    · exact (Persist.advance_reads hstart).user
    · exact Persist.user_answer (h τ c t s₀ hwas hs₀) hanswer

theorem persistsUsers_uses (h : w.PersistsUsers) (us : List Use) : (w.uses us).PersistsUsers := by
  refine uses_of_use PersistsUsers (fun w u h ↦ ?_) h us
  cases u with
  | event ch e => exact persistsUsers_step h ch e
  | _ => exact h

end World

/-- Whether an operation of the store itself gives a group a cursor, or moves it. -/
def Operation.placesCursor (g : String) : Operation → Bool
  | createPartition _ => true
  | openCursor _ g' | resetCursor _ g' _ => g' == g
  | _ => false

namespace Bridge

variable {b : Bridge} {g : String} {op : Operation}

theorem keepsCursors_onPartition {f : Partition → Reply Handle × Partition}
    (hf : ∀ p, (f p).2.cursor? g = p.cursor? g) (tp : TopicPartition) :
    b.store.KeepsCursors g (b.onPartition tp f).2.store := by
  rw [onPartition]
  split
  · exact .refl g b.store
  · exact Store.keepsCursors_setObject (hf _)

theorem keepsCursors_operate (hop : op.placesCursor g = false) :
    b.store.KeepsCursors g (b.operate op).2.store := by
  cases op with
  | register tp =>
      simp only [operate]
      split <;> exact .refl g b.store
  | registerDetached p => exact Store.keepsCursors_allocate g b.store p
  | insertDetached p => exact Store.keepsCursors_allocate g b.store p
  | refreshDetached p => exact Store.keepsCursors_allocate g b.store p
  | createPartition tp => cases hop
  | setRange | append | roll | trim => exact keepsCursors_onPartition (fun _ ↦ rfl) _
  | openCursor tp g' =>
      have hne : g ≠ g' := fun heq ↦ by simp [Operation.placesCursor, heq] at hop
      exact keepsCursors_onPartition (fun _ ↦ Partition.cursor?_openCursor_of_ne hne) tp
  | resetCursor tp g' x =>
      have hne : g ≠ g' := fun heq ↦ by simp [Operation.placesCursor, heq] at hop
      refine keepsCursors_onPartition (fun p ↦ ?_) tp
      rw [Store.cursor?_resetCursor, if_neg hne]
  | range | cursor | cursors =>
      simp only [operate, atPartition]
      split <;> exact .refl g b.store
  | _ => exact ⟨fun _ _ ↦ rfl, rfl⟩

/-- A step of a call leaves the groups of the system alone. -/
theorem keepsCursors_stepCall {order : Itinerary} {now : Nat} {c : Call}
    (hc : ∀ t s, c.purpose? = some (.persist t s) → b.isSystemGroup s.key.group = false)
    (hg : b.isSystemGroup g = true) :
    b.store.KeepsCursors g (b.stepCall order now c).1.store := by
  obtain ⟨_, _, hs⟩ | ⟨t, s, hd, hhanded, hs⟩ := b.store_stepCall_cases order now c
  · rw [hs]
    exact ⟨fun _ _ ↦ rfl, rfl⟩
  · rw [hs]
    refine Store.keepsCursors_writeCursor _ _ ?_ _
    rintro rfl
    cases (hc t s (purpose?_of_handed hhanded)).symm.trans hg

end Bridge

namespace World

variable {w : World} {u : Use} {g : String} {ch : Choice} {e : Event}

theorem keepsCursors_step (hw : w.PersistsUsers) (hg : w.bridge.isSystemGroup g = true)
    (he : ∀ op, e = .operate op → op.placesCursor g = false) :
    w.bridge.store.KeepsCursors g (w.step ch e).bridge.store := by
  have hmove : Move w ch (w.step ch e) e := move_step e
  generalize w.step ch e = w' at hmove ⊢
  cases hmove with
  | @operates op bridge calls => exact bridge ▸ Bridge.keepsCursors_operate (he op rfl)
  | @flies n bridge calls =>
      obtain ⟨_, _, _, _, _, _, _, hb⟩ := w.bridge.stepFlight_eq w.now n ch.draw
      rw [bridge, hb]
      exact ⟨fun _ _ ↦ rfl, rfl⟩
  | @goes τ c was bridge self others =>
      exact bridge ▸ Bridge.keepsCursors_stepCall (fun t s ↦ hw τ c t s was) hg
  | @cancels n c was bridge self others =>
      obtain ⟨_, hb⟩ := w.bridge.cancelCall_eq c
      rw [bridge, hb]
      exact .refl g w.bridge.store
  | begins bridge self others => exact bridge ▸ .refl g w.bridge.store
  | idles bridge calls => exact bridge ▸ .refl g w.bridge.store

theorem keepsCursors_use (hw : w.PersistsUsers) (hg : w.bridge.isSystemGroup g = true)
    (hu : ∀ ch op, u = .event ch (.operate op) → op.placesCursor g = false) :
    w.bridge.store.KeepsCursors g (w.use u).bridge.store := by
  cases u with
  | event ch e =>
      apply keepsCursors_step hw hg
      rintro op rfl
      exact hu ch op rfl
  | _ => apply Store.KeepsCursors.refl

/-! ## Isolation -/

/-- **Isolation.**  Nothing gives a group of the system a cursor or moves one, except the operations
of the store that say so.  And take two stores that differ only in which cursors these groups have
and where they stand, where cursors that still wait for a partition are the same if that is created
in the run, as its tail moves up to them.  The same run over both of them, whatever it commits,
registers, sweeps, persists and whatever fails on the way, gives the same table and counters, the
same answer to every call, the same service with its last report, and the same cursors of all other
groups. -/
theorem system_cursors_isolated (now : Nat) (settings : Bridge.Settings)
    (manualClock : Option Nat) (s s' : Store) (created : List TopicPartition) (us : List Use)
    (hs : s.AlikeBut (Bridge.new settings s manualClock).isSystemGroup created s')
    (hcreated : ∀ ch tp, .event ch (.operate (.createPartition tp)) ∈ us → tp ∈ created) :
    let start := new now (.new settings s manualClock)
    let w := start.uses us
    let w' := (new now (.new settings s' manualClock)).uses us
    (∀ u g, start.bridge.isSystemGroup g = true →
      (∀ ch op, u = .event ch (.operate op) → op.placesCursor g = false) →
      w.bridge.store.KeepsCursors g (w.use u).bridge.store) ∧
    w'.bridge.table = w.bridge.table ∧
    w'.bridge.metrics = w.bridge.metrics ∧
    (∀ m, w'.reply? m = w.reply? m) ∧
    w'.service = w.service ∧
    ∀ g, start.bridge.isSystemGroup g = false →
      (∀ n, (w'.bridge.store.object n).cursor? g = (w.bridge.store.object n).cursor? g) ∧
      ∀ tp, w'.bridge.store.points[(⟨g, tp⟩ : CursorKey)]? =
        w.bridge.store.points[(⟨g, tp⟩ : CursorKey)]? := by
  intro start w w'
  have halike : w.AlikeBut start.bridge.isSystemGroup created w' :=
    AlikeBut.uses ⟨rfl, rfl, hs⟩ rfl hcreated
  refine ⟨?_, ?_, ?_, ?_, ?_, ?_⟩
  · intro u g hg hu
    have husers : start.PersistsUsers := by
      intro τ c t s hc
      cases τ <;> cases hc
    refine keepsCursors_use (persistsUsers_uses husers us) ?_ hu
    rwa [isSystemGroup_uses]
  · rw [halike.bridge.same]
  · rw [halike.bridge.same]
  · intro m
    rw [reply?, halike.same, reply?]
  · rw [halike.same]
  · intro g hg
    exact ⟨fun n ↦ (halike.bridge.store.object n).cursor g hg, halike.bridge.store.points hg⟩

/-- A store with one partition. -/
def oneServed : Store := ((Store.new "node" ∅).createPartition ⟨"t", 0⟩).2

/-- The store in which a group of the system reads that partition as well. -/
def oneWatched : Store := oneServed.setObject 0 ((oneServed.object 0).resetCursor "sys/a" ⟨1, 5⟩)

/-- A group of users and one of the system commit, the partition is registered, and a pass persists
what is there. -/
def persistedBeside : List Use :=
  [.event .plain (.operate (.commit ⟨"g", "t"⟩ 0 268435456)),
    .event .plain (.operate (.commit ⟨"sys/a", "t"⟩ 0 7)), .register [] ⟨0, none⟩,
    .event .plain (.call .persist), .event .plain (.step (.call 0)),
    .event .plain (.step (.call 0))]

theorem watched_persists_alike :
    let settings : Bridge.Settings := ⟨["sys/"], ⟨1, 1, 10, 3⟩, 100⟩
    let w := (new 0 (.new settings oneServed none)).uses persistedBeside
    let w' := (new 0 (.new settings oneWatched none)).uses persistedBeside
    (w.reply? 0).bind Reply.report? = some ⟨1, 0, 1⟩ ∧ w'.reply? 0 = w.reply? 0 ∧
      w'.bridge.table = w.bridge.table ∧
      w.bridge.store.cursorOf ⟨"t", 0⟩ "sys/a" = none ∧
      w'.bridge.store.cursorOf ⟨"t", 0⟩ "sys/a" = some ⟨1, 5⟩ ∧
      w.bridge.store.points[(⟨"g", ⟨"t", 0⟩⟩ : CursorKey)]? = some ⟨1, 0⟩ ∧
      w'.bridge.store.points[(⟨"g", ⟨"t", 0⟩⟩ : CursorKey)]? = some ⟨1, 0⟩ := by
  intro settings w w'
  have hs : oneServed.AlikeBut (Bridge.new settings oneServed none).isSystemGroup [] oneWatched :=
    Store.alikeBut_setObject (Partition.alikeBut_resetCursor (by decide) _ _)
  obtain ⟨-, htable, -, hreply, -, hcursors⟩ := system_cursors_isolated 0 settings none oneServed
    oneWatched [] persistedBeside hs (by simp [persistedBeside])
  obtain ⟨-, hpoints⟩ := hcursors "g" (by decide)
  have hsaved : w.bridge.store.points[(⟨"g", ⟨"t", 0⟩⟩ : CursorKey)]? = some ⟨1, 0⟩ := by
    decide +kernel
  exact ⟨by decide +kernel, hreply 0, htable, by decide +kernel, by decide +kernel, hsaved,
    (hpoints ⟨"t", 0⟩).trans hsaved⟩

end World

end GroupOffsets
