import GroupOffsets.Proofs.Flights
import GroupOffsets.Proofs.Frame

/-!
# Resolutions in flight

`Bridge.Flies` has all that a step can make of a resolution: it waits, goes on, or lands with or
without a handle.  A world is `Aboard` when the resolutions in flight are the works that run, and
everybody waits for the resolution of the partition that they need.
-/

namespace GroupOffsets

open World (Choice Event Task)

/-! ## Judging lookups -/

namespace Lookup

/-- The handle that a lookup found. -/
def handle? : Lookup → Option Handle
  | found h => some h
  | _ => none

end Lookup

namespace Flight

variable {cfg : Backoff.Config} {draw : Option Nat} {clock : Nat} {f : Flight} {l : Option Lookup}

/-- A lookup costs at most retries. -/
theorem judge_eq (cfg : Backoff.Config) (draw : Option Nat) (clock : Nat) (f : Flight)
    (l : Option Lookup) : ∃ backoff, (f.judge cfg draw clock l).2 = { f with backoff } := by
  unfold judge
  split
  · exact ⟨_, rfl⟩
  · exact ⟨_, rfl⟩
  · exact ⟨_, rfl⟩
  all_goals split <;> exact ⟨_, rfl⟩

theorem target_judge : (f.judge cfg draw clock l).2.target = f.target := by
  obtain ⟨_, hf⟩ := judge_eq cfg draw clock f l
  rw [hf]

/-- A resolution finds a partition only if a lookup did. -/
theorem judge_found {h : Handle} (hj : (f.judge cfg draw clock l).1 = .settled (.found h)) :
    l = some (.found h) := by
  unfold judge at hj
  split at hj
  · cases hj
    rfl
  · cases hj
  · cases hj
  all_goals split at hj <;> cases hj

end Flight

namespace Bridge

variable {b b' : Bridge} {draw : Option Nat} {now n : Nat} {f : Flight} {l : Option Lookup}

/-! ## Steps of resolutions -/

theorem conclude_found (h : Handle) : b.conclude draw now n f (some (.found h)) =
    ({ b with
      cache := (b.cache.insertResolved f.target h f.generation).2
      metrics := b.metrics.noteResolutionLatency } : Bridge).land n
        (some (.found (b.cache.insertResolved f.target h f.generation).1)) := rfl

/-- Without a handle the resolution ends, or makes a pause. -/
theorem conclude_of_not_found (hl : l.bind Lookup.handle? = none) :
    (∃ outcome, (∀ h, outcome ≠ some (.found h)) ∧
      b.conclude draw now n f l = b.land n outcome) ∨
    ∃ backoff upTo, b.conclude draw now n f l = { b with
      aloft := b.aloft.insert n { f with backoff, phase := .pausing upTo } } := by
  obtain ⟨backoff, hf⟩ := Flight.judge_eq b.settings.retry draw (b.clock now) f l
  rw [conclude]
  split
  · rename_i h f' heq
    rw [Flight.judge_found (congrArg Prod.fst heq)] at hl
    cases hl
  · rename_i r f' hr heq
    exact .inl ⟨some r, fun h hrh ↦ hr h (Option.some.inj hrh), rfl⟩
  · exact .inl ⟨none, fun h hnone ↦ (by cases hnone), rfl⟩
  · rename_i delay f' heq
    rw [heq] at hf
    dsimp only at hf
    subst hf
    exact .inr ⟨backoff, now + delay, rfl⟩

/-- The generation in which a resolution looks for its partition: the current one if it begins only
now. -/
def generationOf (b : Bridge) (f : Flight) : Nat :=
  if f.phase = .boarding then b.cache.generation f.target.topic else f.generation

/-- The handle that the next step of a resolution obtains: the cached one as it begins, or what a
lookup finds that is answered in this step. -/
def obtains (b : Bridge) (now n : Nat) : Option Handle :=
  (b.aloft[n]?).bind fun f =>
    let answer := (b.store.lookup f.target).1.handle?
    match f.phase with
    | .boarding => (b.cache.get? f.target).or (if b.store.lookupDelay = 0 then answer else none)
    | .locating answerAt _ => if answerAt ≤ now then answer else none
    | .pausing upTo => if upTo ≤ now ∧ b.store.lookupDelay = 0 then answer else none

/-- What a step makes of the resolution with number `n`, which obtains a handle or not. -/
inductive Flies (b : Bridge) (n : Nat) (f : Flight) (b' : Bridge) : Option Handle → Prop
  /-- It has to wait longer. -/
  | waits (departed : f.phase ≠ .boarding) (same : b' = b) : Flies b n f b' none
  /-- It is on its way. -/
  | goesOn {f' : Flight} (departed : f'.phase ≠ .boarding) (target : f'.target = f.target)
      (generation : f'.generation = b.generationOf f) (cache : b'.cache = b.cache)
      (flights : b'.flights = b.flights) (aloft : b'.aloft = b.aloft.insert n f') :
      Flies b n f b' none
  | lands {outcome : Option Resolution} (lost : ∀ h, outcome ≠ some (.found h))
      (cache : b'.cache = b.cache) (flights : b'.flights = b.flights.finish n outcome)
      (aloft : b'.aloft = b.aloft.erase n) : Flies b n f b' none
  /-- The partition was cached before the resolution began. -/
  | meets {h : Handle} (boarding : f.phase = .boarding) (cached : b.cache.get? f.target = some h)
      (cache : b'.cache = b.cache) (flights : b'.flights = b.flights.finish n (some (.found h)))
      (aloft : b'.aloft = b.aloft.erase n) : Flies b n f b' (some h)
  | finds {h : Handle} (found : (b.store.lookup f.target).1 = .found h)
      (cache : b'.cache = (b.cache.insertResolved f.target h (b.generationOf f)).2)
      (flights : b'.flights = b.flights.finish n
        (some (.found (b.cache.insertResolved f.target h (b.generationOf f)).1)))
      (aloft : b'.aloft = b.aloft.erase n) : Flies b n f b' (some h)

section

variable {b₁ : Bridge} {f₁ : Flight}

theorem flies_conclude (hcache : b₁.cache = b.cache) (hflights : b₁.flights = b.flights)
    (haloft : b₁.aloft = b.aloft) (htarget : f₁.target = f.target)
    (hgeneration : f₁.generation = b.generationOf f)
    (hl : ∀ h, l = some (.found h) → (b.store.lookup f.target).1 = .found h) :
    Flies b n f (b₁.conclude draw now n f₁ l) (l.bind Lookup.handle?) := by
  cases hfound : l.bind Lookup.handle? with
  | none =>
      obtain ⟨outcome, hlost, hb⟩ | ⟨backoff, upTo, hb⟩ := b₁.conclude_of_not_found hfound
      · exact hb ▸ .lands hlost hcache (hflights ▸ rfl) (haloft ▸ rfl)
      · have hpauses : ({ b₁ with
            aloft := b₁.aloft.insert n { f₁ with backoff, phase := .pausing upTo } } : Bridge).aloft =
              b.aloft.insert n { f₁ with backoff, phase := .pausing upTo } := by rw [haloft]
        rw [hb]
        refine .goesOn ?_ ?_ ?_ hcache hflights hpauses
        · simp
        · exact htarget
        · exact hgeneration
  | some h =>
      have hl' : l = some (.found h) := by
        obtain ⟨l, rfl, hh⟩ := Option.bind_eq_some_iff.mp hfound
        cases l <;> cases hh
        rfl
      rw [hl', conclude_found, htarget, hgeneration, hcache]
      exact .finds (hl h hl') rfl (hflights ▸ rfl) (haloft ▸ rfl)

theorem flies_answerLookup (hcache : b₁.cache = b.cache) (hflights : b₁.flights = b.flights)
    (haloft : b₁.aloft = b.aloft) (htarget : f₁.target = f.target)
    (hgeneration : f₁.generation = b.generationOf f)
    (hlookup : (b₁.store.lookup f.target).1 = (b.store.lookup f.target).1) :
    Flies b n f (b₁.answerLookup draw now n f₁) (b.store.lookup f.target).1.handle? := by
  let told : Bridge := { b₁ with store := (b₁.store.lookup f.target).2 }
  have hflies : Flies b n f (told.conclude draw now n f₁ (some (b.store.lookup f.target).1))
      (b.store.lookup f.target).1.handle? :=
    flies_conclude hcache hflights haloft htarget hgeneration fun h hl ↦ Option.some.inj hl
  simp only [answerLookup, htarget, hlookup]
  exact hflies

theorem flies_beginLookup (htarget : f₁.target = f.target)
    (hgeneration : f₁.generation = b.generationOf f) :
    Flies b n f (b.beginLookup draw now n f₁)
      (if b.store.lookupDelay = 0 then (b.store.lookup f.target).1.handle? else none) := by
  have hsame : b.store.beginLookup.lookupDelay = b.store.lookupDelay := rfl
  simp only [beginLookup, hsame]
  by_cases hdelay : b.store.lookupDelay = 0
  · rw [if_pos hdelay, if_pos hdelay]
    exact flies_answerLookup rfl rfl rfl htarget hgeneration Store.lookup_beginLookup
  · rw [if_neg hdelay, if_neg hdelay]
    refine .goesOn ?_ ?_ ?_ rfl rfl rfl
    · simp
    · exact htarget
    · exact hgeneration

end

theorem flies_stepFlight (draw : Option Nat) (now : Nat) (hf : b.aloft[n]? = some f) :
    Flies b n f (b.stepFlight draw now n) (b.obtains now n) := by
  rw [stepFlight, obtains, hf]
  simp only [Option.bind_some]
  have hgeneration : ∀ {phase}, f.phase = phase → phase ≠ .boarding →
      f.generation = b.generationOf f := by
    rintro phase rfl hphase
    rw [generationOf, if_neg hphase]
  cases hphase : f.phase with
  | boarding =>
      dsimp only
      cases hget : b.cache.get? f.target with
      | some h => exact .meets hphase hget rfl rfl rfl
      | none =>
          rw [Option.none_or]
          refine flies_beginLookup rfl ?_
          rw [generationOf, if_pos hphase]
          rfl
  | locating answerAt giveUpAt =>
      have hgeneration := hgeneration hphase (by simp)
      dsimp only
      by_cases hanswer : answerAt ≤ now
      · rw [if_pos hanswer, if_pos hanswer]
        exact flies_answerLookup rfl rfl rfl rfl hgeneration rfl
      · rw [if_neg hanswer, if_neg hanswer]
        split
        · exact flies_conclude rfl rfl rfl rfl hgeneration fun h hnone ↦ by cases hnone
        · exact .waits (by simp [hphase]) rfl
  | pausing upTo =>
      have hgeneration := hgeneration hphase (by simp)
      dsimp only
      by_cases hup : upTo ≤ now
      · simp only [hup, if_true, true_and]
        exact flies_beginLookup rfl hgeneration
      · simp only [hup, if_false, false_and]
        exact .waits (by simp [hphase]) rfl

/-! ## Works and resolutions -/

/-- The resolutions in flight are the works that run. -/
structure Aboard (b : Bridge) : Prop where
  sound : b.flights.Sound
  works : ∀ n : Nat, b.flights.works[n]? = (b.aloft[n]?).map Flight.target

theorem aboard_new (settings : Settings) (store : Store) (manualClock : Option Nat) :
    (new settings store manualClock).Aboard := by
  refine ⟨Flights.sound_empty, fun n ↦ ?_⟩
  have hworks : (new settings store manualClock).flights.works = ∅ := rfl
  have haloft : (new settings store manualClock).aloft = ∅ := rfl
  rw [hworks, haloft, Std.ExtTreeMap.getElem?_empty, Std.ExtTreeMap.getElem?_empty]
  rfl

theorem Aboard.congr (h : b.Aboard) (hflights : b'.flights = b.flights)
    (haloft : b'.aloft = b.aloft) : b'.Aboard :=
  ⟨hflights ▸ h.sound, hflights ▸ haloft ▸ h.works⟩

theorem Aboard.works_eq (h : b.Aboard) (hf : b.aloft[n]? = some f) :
    b.flights.works[n]? = some f.target := by
  rw [h.works, hf]
  rfl

theorem Aboard.join (h : b.Aboard) (tp : TopicPartition) : (b.joinFlight tp).2.Aboard := by
  refine ⟨h.sound.join tp, fun n ↦ ?_⟩
  simp only [joinFlight]
  rcases Flights.works_join_cases b.flights tp with ⟨hfollows, hsame⟩ | ⟨hticket, -, hworks⟩
  · rw [hsame, hfollows, h.works]
    rfl
  · rw [hworks, hticket, h.works]
    by_cases hn : n = b.flights.next
    · simp [hn, Flight.board]
    · have hne : b.flights.next ≠ n := fun heq ↦ hn heq.symm
      simp [hn, hne, Std.ExtTreeMap.getElem?_insert, Std.LawfulEqCmp.compare_eq_iff_eq]

/-- A resolution that goes on has the target that it had. -/
theorem Aboard.insert {f' : Flight} (h : b.Aboard) (hf : b.aloft[n]? = some f)
    (htarget : f'.target = f.target) (hflights : b'.flights = b.flights)
    (haloft : b'.aloft = b.aloft.insert n f') : b'.Aboard := by
  refine ⟨hflights ▸ h.sound, fun m ↦ ?_⟩
  rw [hflights, haloft, h.works]
  by_cases hm : n = m
  · subst hm
    simp [hf, htarget]
  · simp [hm, Std.ExtTreeMap.getElem?_insert, Std.LawfulEqCmp.compare_eq_iff_eq]

theorem Aboard.land {outcome : Option Resolution} (h : b.Aboard)
    (hflights : b'.flights = b.flights.finish n outcome) (haloft : b'.aloft = b.aloft.erase n) :
    b'.Aboard := by
  refine ⟨hflights ▸ h.sound.finish n outcome, fun m ↦ ?_⟩
  rw [hflights, haloft, Flights.works_finish, h.works]
  by_cases hm : m = n
  · simp [hm]
  · have hne : n ≠ m := fun heq ↦ hm heq.symm
    simp [hm, hne, Std.ExtTreeMap.getElem?_erase, Std.LawfulEqCmp.compare_eq_iff_eq]

theorem Aboard.stepFlight (h : b.Aboard) : (b.stepFlight draw now n).Aboard := by
  cases hf : b.aloft[n]? with
  | none =>
      rw [Bridge.stepFlight, hf]
      exact h
  | some f =>
      have hflies := flies_stepFlight draw now hf
      generalize b.obtains now n = obtained at hflies
      cases hflies with
      | waits departed same => rwa [same]
      | goesOn departed target generation cache flights aloft =>
          exact h.insert hf target flights aloft
      | lands lost cache flights aloft => exact h.land flights aloft
      | meets boarding cached cache flights aloft => exact h.land flights aloft
      | finds found cache flights aloft => exact h.land flights aloft

variable {order : Itinerary} {c : Call} {p : Purpose} {d : Nat}

/-- A step of a call does nothing to the resolutions, except that it may join one. -/
theorem flights_stepCall_cases (b : Bridge) (order : Itinerary) (now : Nat) (c : Call) :
    (b.stepCall order now c).1.flights = b.flights ∧
        (b.stepCall order now c).1.aloft = b.aloft ∨
      ∃ tp, (b.stepCall order now c).1 = (b.joinFlight tp).2 := by
  cases hp : c.purpose? with
  | none =>
      obtain ⟨_, _, _, _, hb⟩ := b.stepCall_idle_eq order now hp
      exact .inl (by simp only [hb, and_self])
  | some p =>
      cases hh : b.handed now c with
      | some pr =>
          obtain ⟨metrics, hb⟩ := stepCall_of_handed order hh
          obtain ⟨_, _, _, _, hb'⟩ := deliver_eq { b with metrics } order pr.1 pr.2
          exact .inl (by simp only [hb, hb', and_self])
      | none =>
          obtain ⟨-, hb | ⟨-, hb⟩⟩ := stepCall_of_not_handed order hp hh
          · exact .inl (by simp only [hb, and_self])
          · exact .inr ⟨p.target, hb⟩

theorem Aboard.stepCall (h : b.Aboard) : (b.stepCall order now c).1.Aboard := by
  obtain ⟨hflights, haloft⟩ | ⟨tp, hb⟩ := flights_stepCall_cases b order now c
  · exact h.congr hflights haloft
  · exact hb ▸ h.join tp

theorem flights_operate (b : Bridge) (op : Operation) :
    (b.operate op).2.flights = b.flights ∧ (b.operate op).2.aloft = b.aloft := by
  cases op with
  | register tp =>
      simp only [operate]
      split <;> exact ⟨rfl, rfl⟩
  | setRange | append | roll | trim | openCursor | resetCursor =>
      simp only [operate, onPartition]
      split <;> exact ⟨rfl, rfl⟩
  | range | cursor | cursors =>
      simp only [operate, atPartition]
      split <;> exact ⟨rfl, rfl⟩
  | _ => exact ⟨rfl, rfl⟩

/-! ## Waiting -/

/-- Somebody waits for a resolution of the partition that is needed. -/
structure Boards (b : Bridge) (p : Purpose) (n : Nat) : Prop where
  old : n < b.flights.next
  target : ∀ {tp}, b.flights.works[n]? = some tp → p.target = tp

theorem Aboard.boards_join (h : b.Aboard) (p : Purpose) :
    (b.joinFlight p.target).2.Boards p (b.joinFlight p.target).1 := by
  have hworks : (b.joinFlight p.target).2.flights.works[(b.joinFlight p.target).1]? =
      some p.target := h.sound.works_join p.target
  exact ⟨(h.join p.target).sound.works_old hworks,
    fun htp ↦ Option.some.inj (hworks.symm.trans htp)⟩

/-- Whoever joins a resolution joins one that has not ended. -/
theorem Aboard.outcome?_joined (h : b.Aboard) (tp : TopicPartition) :
    b.flights.outcome? (b.joinFlight tp).1 = none := by
  have hruns := (h.sound.join tp).running (h.sound.works_join tp)
  rwa [Flights.outcome?_join] at hruns

/-- Numbers of works are not used again, and so nobody's resolution becomes another one. -/
theorem Boards.mono (h : b.Boards p n) (hnext : b.flights.next ≤ b'.flights.next)
    (hworks : ∀ {m : Nat} {tp}, m < b.flights.next → b'.flights.works[m]? = some tp →
      b.flights.works[m]? = some tp) : b'.Boards p n :=
  ⟨Nat.lt_of_lt_of_le h.old hnext, fun htp ↦ h.target (hworks h.old htp)⟩

theorem Boards.congr (h : b.Boards p n) (hflights : b'.flights = b.flights) : b'.Boards p n :=
  ⟨hflights ▸ h.old, hflights ▸ h.target⟩

theorem Boards.join {tp : TopicPartition} (h : b.Boards p n)
    (hflights : b'.flights = (b.flights.join tp).2) : b'.Boards p n := by
  refine h.mono (hflights ▸ Flights.next_le_join tp) fun {m tp'} hm hworks ↦ ?_
  rw [hflights] at hworks
  rcases Flights.works_join_cases b.flights tp with ⟨-, hsame⟩ | ⟨-, -, hnew⟩
  · rwa [hsame] at hworks
  · rwa [hnew, if_neg (Nat.ne_of_lt hm)] at hworks

theorem Boards.land {m : Nat} {outcome : Option Resolution} (h : b.Boards p n)
    (hflights : b'.flights = b.flights.finish m outcome) : b'.Boards p n := by
  refine h.mono (by simp [hflights]) fun {m' tp} _ hworks ↦ ?_
  rw [hflights, Flights.works_finish] at hworks
  split at hworks
  · cases hworks
  · exact hworks

/-- A step of a resolution ends its work, at most. -/
theorem flights_stepFlight_cases (b : Bridge) (draw : Option Nat) (now n : Nat) :
    (b.stepFlight draw now n).flights = b.flights ∨
      ∃ outcome, (b.stepFlight draw now n).flights = b.flights.finish n outcome := by
  cases hf : b.aloft[n]? with
  | none => exact .inl (by rw [Bridge.stepFlight, hf])
  | some f =>
      have hflies := flies_stepFlight draw now hf
      generalize b.obtains now n = obtained at hflies
      cases hflies with
      | waits departed same => exact .inl (by rw [same])
      | goesOn departed target generation cache flights aloft => exact .inl flights
      | lands lost cache flights aloft => exact .inr ⟨_, flights⟩
      | meets boarding cached cache flights aloft => exact .inr ⟨_, flights⟩
      | finds found cache flights aloft => exact .inr ⟨_, flights⟩

/-- A resolution that is in the air after a step of some resolution was there before; if it made
the step itself, it has set out at the latest now. -/
theorem aloft_stepFlight {f' : Flight} {m : Nat}
    (hf' : (b.stepFlight draw now m).aloft[n]? = some f') : ∃ f, b.aloft[n]? = some f ∧ (f' = f ∨
      f'.phase ≠ .boarding ∧ f'.target = f.target ∧ f'.generation = b.generationOf f) := by
  cases hf : b.aloft[m]? with
  | none =>
      rw [Bridge.stepFlight, hf] at hf'
      exact ⟨f', hf', .inl rfl⟩
  | some f =>
      have hflies := flies_stepFlight draw now hf
      generalize b.obtains now m = obtained at hflies
      have erased : (b.stepFlight draw now m).aloft = b.aloft.erase m → b.aloft[n]? = some f' := by
        intro haloft
        rw [haloft, Std.ExtTreeMap.getElem?_erase] at hf'
        split at hf'
        · cases hf'
        · exact hf'
      cases hflies with
      | waits departed same => exact ⟨f', same ▸ hf', .inl rfl⟩
      | goesOn departed target generation cache flights aloft =>
          rw [aloft, Std.ExtTreeMap.getElem?_insert] at hf'
          split at hf'
          · rename_i hm
            rw [Std.LawfulEqCmp.compare_eq_iff_eq] at hm
            cases hf'
            exact ⟨f, hm ▸ hf, .inr ⟨departed, target, generation⟩⟩
          · exact ⟨f', hf', .inl rfl⟩
      | lands lost cache flights aloft => exact ⟨f', erased aloft, .inl rfl⟩
      | meets boarding cached cache flights aloft => exact ⟨f', erased aloft, .inl rfl⟩
      | finds found cache flights aloft => exact ⟨f', erased aloft, .inl rfl⟩

theorem aloft_join {tp : TopicPartition} (hn : n < b.flights.next) :
    (b.joinFlight tp).2.aloft[n]? = b.aloft[n]? := by
  simp only [joinFlight]
  rcases Flights.works_join_cases b.flights tp with ⟨hfollows, -⟩ | ⟨hticket, -, -⟩
  · rw [hfollows]
    rfl
  · have hne : b.flights.next ≠ n := Nat.ne_of_gt hn
    simp [hticket, Std.ExtTreeMap.getElem?_insert, Std.LawfulEqCmp.compare_eq_iff_eq, hne]

end Bridge

namespace World

variable {w w' : World} {ch : Choice} {e : Event} {es : List (Choice × Event)} {n : Nat}
variable {p : Purpose} {o : Option Resolution}

/-- What an event does to the works: nothing, or somebody joins one, or one ends. -/
theorem flights_step_cases (w : World) (ch : Choice) (e : Event) :
    (w.step ch e).bridge.flights = w.bridge.flights ∨
      (∃ tp, (w.step ch e).bridge.flights = (w.bridge.flights.join tp).2) ∨
        ∃ n outcome, (w.step ch e).bridge.flights = w.bridge.flights.finish n outcome := by
  have hmove : Move w ch (w.step ch e) e := move_step e
  generalize w.step ch e = w' at hmove
  cases hmove with
  | @operates op bridge calls => exact .inl (by rw [bridge, (w.bridge.flights_operate op).1])
  | @flies n bridge calls =>
      obtain hb | ⟨outcome, hb⟩ := w.bridge.flights_stepFlight_cases ch.draw w.now n
      · exact .inl (by rw [bridge, hb])
      · exact .inr (.inr ⟨n, outcome, by rw [bridge, hb]⟩)
  | @goes τ c was bridge self others =>
      obtain ⟨hb, -⟩ | ⟨tp, hb⟩ := w.bridge.flights_stepCall_cases ch.order w.now c
      · exact .inl (by rw [bridge, hb])
      · exact .inr (.inl ⟨tp, by rw [bridge, hb, Bridge.joinFlight]⟩)
  | @cancels n c was bridge self others =>
      obtain ⟨_, hb⟩ := w.bridge.cancelCall_eq c
      exact .inl (by rw [bridge, hb])
  | begins bridge self others => exact .inl (by rw [bridge])
  | idles bridge calls => exact .inl (by rw [bridge])

theorem next_le_step (w : World) (ch : Choice) (e : Event) :
    w.bridge.flights.next ≤ (w.step ch e).bridge.flights.next := by
  obtain hsame | ⟨tp, hjoin⟩ | ⟨n, outcome, hland⟩ := flights_step_cases w ch e
  · simp [hsame]
  · rw [hjoin]
    exact Flights.next_le_join tp
  · simp [hland]

theorem boards_step (h : w.bridge.Boards p n) (ch : Choice) (e : Event) :
    (w.step ch e).bridge.Boards p n := by
  obtain hsame | ⟨tp, hjoin⟩ | ⟨m, outcome, hland⟩ := flights_step_cases w ch e
  · exact h.congr hsame
  · exact h.join hjoin
  · exact h.land hland

/-- A resolution that is in the air after an event was there before, or has only now begun. -/
theorem aloft_step {f' : Flight} (hn : n < w.bridge.flights.next)
    (hf' : (w.step ch e).bridge.aloft[n]? = some f') : ∃ f, w.bridge.aloft[n]? = some f ∧ (f' = f ∨
      f'.phase ≠ .boarding ∧ f'.target = f.target ∧ f'.generation = w.bridge.generationOf f) := by
  have hmove : Move w ch (w.step ch e) e := move_step e
  generalize w.step ch e = w' at hmove hf'
  cases hmove with
  | @operates op bridge calls =>
      rw [bridge, (w.bridge.flights_operate op).2] at hf'
      exact ⟨f', hf', .inl rfl⟩
  | @flies m bridge calls => exact Bridge.aloft_stepFlight (bridge ▸ hf')
  | @goes τ c was bridge self others =>
      rw [bridge] at hf'
      obtain ⟨-, hb⟩ | ⟨tp, hb⟩ := w.bridge.flights_stepCall_cases ch.order w.now c
      · exact ⟨f', hb ▸ hf', .inl rfl⟩
      · exact ⟨f', Bridge.aloft_join hn ▸ hb ▸ hf', .inl rfl⟩
  | @cancels m c was bridge self others =>
      obtain ⟨_, hb⟩ := w.bridge.cancelCall_eq c
      rw [bridge, hb] at hf'
      exact ⟨f', hf', .inl rfl⟩
  | begins bridge self others => exact ⟨f', bridge ▸ hf', .inl rfl⟩
  | idles bridge calls => exact ⟨f', bridge ▸ hf', .inl rfl⟩

/-! ## Aboard -/

/-- The resolutions in flight are the works that run, and who waits for one needs its partition. -/
structure Aboard (w : World) : Prop where
  bridge : w.bridge.Aboard
  waits : ∀ {τ p n d}, w.callOf τ = some (.waiting p n d) → w.bridge.Boards p n

theorem aboard_new {b : Bridge} (h : b.Aboard) (now : Nat) : (new now b).Aboard := by
  refine ⟨h, fun {τ p n d} hc ↦ ?_⟩
  have hcalls : (new now b).calls = ∅ := rfl
  cases τ with
  | call m =>
      rw [callOf, hcalls] at hc
      simp at hc
  | _ => cases hc

theorem aboard_step (h : w.Aboard) (ch : Choice) (e : Event) : (w.step ch e).Aboard := by
  refine ⟨?_, fun {τ p n d} hc ↦ ?_⟩
  · have hmove : Move w ch (w.step ch e) e := move_step e
    generalize w.step ch e = w' at hmove
    cases hmove with
    | @operates op bridge calls =>
        obtain ⟨hflights, haloft⟩ := w.bridge.flights_operate op
        rw [← bridge] at hflights haloft
        exact h.bridge.congr hflights haloft
    | flies bridge calls => exact bridge ▸ h.bridge.stepFlight
    | goes was bridge self others => exact bridge ▸ h.bridge.stepCall
    | @cancels n c was bridge self others =>
        obtain ⟨persistTurn, hb⟩ := w.bridge.cancelCall_eq c
        exact h.bridge.congr (by rw [bridge, hb]) (by rw [bridge, hb])
    | begins bridge self others => exact bridge ▸ h.bridge
    | idles bridge calls => exact bridge ▸ h.bridge
  · obtain hwaits | ⟨-, -, -, hb, rfl, -⟩ := waiting_step_cases hc
    · exact boards_step (h.waits hwaits) ch e
    · rw [hb]
      exact h.bridge.boards_join p

/-- How a work has ended stays known. -/
theorem outcome?_step (h : w.Aboard) (ch : Choice) (e : Event)
    (ho : w.bridge.flights.outcome? n = some o) :
    (w.step ch e).bridge.flights.outcome? n = some o := by
  obtain hsame | ⟨tp, hjoin⟩ | ⟨m, outcome, hland⟩ := flights_step_cases w ch e
  · rwa [hsame]
  · rwa [hjoin, Flights.outcome?_join]
  · rw [hland]
    exact h.bridge.sound.outcome?_finish_of_some ho

theorem aboard_steps (h : w.Aboard) (es : List (Choice × Event)) : (w.steps es).Aboard :=
  steps_of_step Aboard (fun _ ch e h ↦ aboard_step h ch e) h es

end World

end GroupOffsets
