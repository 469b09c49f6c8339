import GroupOffsets.Proofs.Convergence
import GroupOffsets.Proofs.Cursors
import GroupOffsets.Proofs.Resolution.Callers

/-!
# Partitions that are torn down

The object of a deleted partition stays usable through its handles, and one may still be cached, or
be what a resolution in flight has come to.  But once the partition was invalidated as well, whoever
asks for it gets an object that the store has made since it was deleted, or a handle that somebody
has cached since it was invalidated.  For a resolution in flight only ends with what it finds in
that moment, and nobody joins one that has ended.
-/

namespace GroupOffsets

open World (Choice Event Task Use)

namespace Bridge

variable {b : Bridge} {op : Operation} {tp : TopicPartition} {m : Nat}

/-- The store serves another object only after the partition was created. -/
theorem object?_operate_cases (h : (b.operate op).2.store.object? tp = some m) :
    b.store.object? tp = some m ∨
      op = .createPartition tp ∧ b.store.object? tp = none ∧ m = b.store.nextObject := by
  cases op with
  | register tp' =>
      simp only [operate] at h
      split at h <;> exact .inl h
  | createPartition tp' =>
      have h : (b.store.createPartition tp').2.object? tp = some m := h
      rw [Store.object?_createPartition] at h
      split at h
      · rename_i htp
        subst htp
        cases hn : b.store.object? tp with
        | some n =>
            rw [Store.ensure_of_some hn] at h
            exact .inl h
        | none =>
            rw [Store.ensure_fst_of_none hn] at h
            exact .inr ⟨rfl, rfl, (Option.some.inj h).symm⟩
      · exact .inl h
  | deletePartition tp' =>
      have h : (b.store.deletePartition tp').2.object? tp = some m := h
      rw [Store.object?_deletePartition] at h
      split at h
      · cases h
      · exact .inl h
  | setRange | append | roll | trim | openCursor | resetCursor =>
      simp only [operate, onPartition] at h
      split at h <;> exact .inl h
  | range | cursor | cursors =>
      simp only [operate, atPartition] at h
      split at h <;> exact .inl h
  | _ => exact .inl h

end Bridge

namespace World

variable {w d : World} {u : Use} {us us' gone since : List Use} {ch : Choice} {e : Event}
variable {tp : TopicPartition} {h : Handle} {m n : Nat} {P P' : Handle → Prop}

/-! ## What a use adds -/

/-- The cursor that a persist pass writes in a use: the handle that it was handed, the group, and
where its cursor goes. -/
def persists? (w : World) : Use → Option (Handle × String × Position)
  | .event _ (.step τ) =>
    match (w.callOf τ).bind (w.bridge.handed w.now) with
    | some (.persist _ s, .ok h) => some (h, s.key.group, s.position)
    | _ => none
  | _ => none

/-- What a use that is no operation makes of the store. -/
inductive Touches (w : World) (u : Use) (s : Store) : Prop
  | behaves {failing lookups nextWrapper : Nat} (idle : w.persists? u = none)
      (same : s = { w.bridge.store with failing, lookups, nextWrapper })
  | writes {h : Handle} {g : String} {x : Position} (persists : w.persists? u = some (h, g, x))
      (same : s = (w.bridge.store.writeCursor h g x).2)

theorem touches_run (w : World) (ch : Choice) (τ : Task) :
    w.Touches (.event ch (.step τ)) (w.run ch τ).bridge.store := by
  cases hc : w.callOf τ with
  | none =>
      have hidle : w.persists? (.event ch (.step τ)) = none := by simp only [persists?, hc]; rfl
      cases τ with
      | flight n =>
          obtain ⟨_, _, _, _, _, _, _, hb⟩ := w.bridge.stepFlight_eq w.now n ch.draw
          have hrun : (w.run ch (.flight n)).bridge = w.bridge.stepFlight ch.draw w.now n := rfl
          exact .behaves hidle (by rw [hrun, hb])
      | _ => exact .behaves hidle (by rw [bridge_run_of_none hc (by rintro _ ⟨⟩) ch])
  | some c =>
      rw [(run_of_callOf hc ch).1]
      have hpersists : ∀ {t s h}, w.bridge.handed w.now c = some (.persist t s, .ok h) →
          w.persists? (.event ch (.step τ)) = some (h, s.key.group, s.position) := by
        intro t s h hh
        simp only [persists?, hc, Option.bind_some, hh]
      rcases w.bridge.store_stepCall_cases ch.order w.now c with ⟨_, _, hs⟩ | ⟨t, s, h, hh, hs⟩
      · cases hp : w.persists? (.event ch (.step τ)) with
        | none => exact .behaves hp hs
        | some write =>
            simp only [persists?, hc, Option.bind_some] at hp
            split at hp
            · rename_i t s h hh
              exact .writes (hpersists hh) (Bridge.store_stepCall_persist ch.order hh)
            · cases hp
      · exact .writes (hpersists hh) hs

theorem touches_use (hu : ∀ ch op, u ≠ .event ch (.operate op)) :
    w.Touches u (w.use u).bridge.store := by
  cases u with
  | event ch e =>
      cases e with
      | operate op => exact absurd rfl (hu ch op)
      | step τ => exact w.touches_run ch τ
      | cancel n =>
          have hsame : (w.cancel n).bridge.store = w.bridge.store := by
            rw [cancel]
            split
            · rfl
            · rename_i c hc
              obtain ⟨_, hb⟩ := w.bridge.cancelCall_eq c
              rw [hb]
          exact .behaves rfl hsame
      | _ => exact .behaves rfl rfl
  | _ => exact .behaves rfl rfl

theorem Touches.object? {s : Store} (h : w.Touches u s) (tp : TopicPartition) :
    s.object? tp = w.bridge.store.object? tp := by
  cases h with
  | behaves idle same => rw [same]; rfl
  | @writes hd g x persists same =>
      obtain hsame | ⟨p, hset, -⟩ := w.bridge.store.writeCursor_cases hd g x
      · rw [same, hsame]
      · rw [same, hset]; rfl

theorem Touches.pending {s : Store} (h : w.Touches u s) : s.pending = w.bridge.store.pending := by
  cases h with
  | behaves idle same => rw [same]
  | @writes hd g x persists same =>
      obtain hsame | ⟨p, hset, -⟩ := w.bridge.store.writeCursor_cases hd g x
      · rw [same, hsame]
      · rw [same, hset]
        rfl

theorem object?_use_cases (hm : (w.use u).bridge.store.object? tp = some m) :
    w.bridge.store.object? tp = some m ∨ (∃ ch, u = .event ch (.operate (.createPartition tp))) ∧
      w.bridge.store.object? tp = none ∧ m = w.bridge.store.nextObject := by
  by_cases hu : ∃ ch op, u = .event ch (.operate op)
  · obtain ⟨ch, op, rfl⟩ := hu
    refine (Bridge.object?_operate_cases hm).imp_right ?_
    rintro ⟨rfl, hrest⟩
    exact ⟨⟨ch, rfl⟩, hrest⟩
  · rw [(touches_use fun ch op heq ↦ hu ⟨ch, op, heq⟩).object?] at hm
    exact .inl hm

theorem evolves_use (w : World) (u : Use) : w.bridge.store.Evolves (w.use u).bridge.store := by
  cases u with
  | event ch e => exact evolves_step w ch e
  | _ => exact .refl

/-- The handle that a user hands to the cache, and the partition under which it does. -/
def handsIn (w : World) : Use → Option (TopicPartition × Handle)
  | .insertIfAbsent tp h | .refresh tp h => some (tp, h)
  | .register _ h => some ((w.bridge.store.partition h).name, h)
  | .event _ (.operate (.registerDetached p)) | .event _ (.operate (.insertDetached p))
  | .event _ (.operate (.refreshDetached p)) => some (p.name, ⟨w.bridge.store.nextObject, none⟩)
  | _ => none

theorem get?_operate_cases (hs : w.bridge.store.Tidy) {op : Operation} (ch : Choice)
    (hget : (w.bridge.operate op).2.cache.get? tp = some h) :
    w.bridge.cache.get? tp = some h ∨ w.bridge.store.object? tp = some h.object ∨
      w.handsIn (.event ch (.operate op)) = some (tp, h) := by
  cases op with
  | register tp' =>
      simp only [Bridge.operate] at hget
      split at hget
      · exact .inl hget
      · rename_i k hk
        refine (Cache.get?_insertIfAbsent_cases hget).imp_right ?_
        rintro ⟨rfl, rfl⟩
        have hname : (w.bridge.store.partition ⟨k, none⟩).name = tp' := hs.named hk
        exact .inl (hname.symm ▸ hk)
  | registerDetached p =>
      refine (Cache.get?_insertIfAbsent_cases hget).imp_right ?_
      rintro ⟨rfl, rfl⟩
      exact .inr (congrArg (fun tp ↦ some (tp, _)) (w.bridge.store.refers_allocate p).name.symm)
  | insertDetached p =>
      refine (Cache.get?_insertIfAbsent_cases hget).imp_right ?_
      rintro ⟨rfl, rfl⟩
      exact .inr rfl
  | refreshDetached p =>
      refine (Cache.get?_refresh_cases hget).imp_right ?_
      rintro ⟨rfl, rfl⟩
      exact .inr rfl
  | invalidate tp' | unregister tp' =>
      replace hget : (w.bridge.cache.invalidate tp').2.get? tp = some h := hget
      rw [Cache.get?_invalidate] at hget
      split at hget
      · cases hget
      · exact .inl hget
  | invalidateTopic t | unregisterTopic t =>
      replace hget : (w.bridge.cache.invalidateTopic t).2.get? tp = some h := hget
      rw [Cache.get?_invalidateTopic] at hget
      split at hget
      · cases hget
      · exact .inl hget
  | setRange | append | roll | trim | openCursor | resetCursor =>
      simp only [Bridge.operate, Bridge.onPartition] at hget
      split at hget <;> exact .inl hget
  | range | cursor | cursors =>
      simp only [Bridge.operate, Bridge.atPartition] at hget
      split at hget <;> exact .inl hget
  | _ => exact .inl hget

theorem get?_step_cases (hs : w.bridge.store.Tidy)
    (hget : (w.step ch e).bridge.cache.get? tp = some h) :
    w.bridge.cache.get? tp = some h ∨ w.bridge.store.object? tp = some h.object ∨
      w.handsIn (.event ch e) = some (tp, h) := by
  have hmove : Move w ch (w.step ch e) e := move_step e
  generalize w.step ch e = w' at hmove hget
  cases hmove with
  | operates bridge calls => exact get?_operate_cases hs ch (bridge ▸ hget)
  | @flies k bridge calls =>
      rw [bridge] at hget
      exact ((w.bridge.yields_stepFlight ch.draw w.now k).1 tp h hget).imp_right .inl
  | @goes τ c was bridge self others =>
      rw [bridge, Bridge.cache_stepCall] at hget
      exact .inl hget
  | @cancels k c was bridge self others =>
      obtain ⟨_, hb⟩ := w.bridge.cancelCall_eq c
      rw [bridge, hb] at hget
      exact .inl hget
  | begins bridge self others => exact .inl (bridge ▸ hget)
  | idles bridge calls => exact .inl (bridge ▸ hget)

/-- A handle that is newly cached was handed in, or the store serves its object. -/
theorem get?_use_cases (hs : w.bridge.store.Tidy)
    (hget : (w.use u).bridge.cache.get? tp = some h) :
    w.bridge.cache.get? tp = some h ∨ w.bridge.store.object? tp = some h.object ∨
      w.handsIn u = some (tp, h) := by
  cases u with
  | event ch e => exact get?_step_cases hs hget
  | insertIfAbsent tp' h' =>
      refine (Cache.get?_insertIfAbsent_cases hget).imp_right ?_
      rintro ⟨rfl, rfl⟩
      exact .inr rfl
  | refresh tp' h' =>
      refine (Cache.get?_refresh_cases hget).imp_right ?_
      rintro ⟨rfl, rfl⟩
      exact .inr rfl
  | register order h' =>
      refine (Cache.get?_insertIfAbsent_cases hget).imp_right ?_
      rintro ⟨rfl, rfl⟩
      exact .inr rfl

theorem get?_use_of_invalidates (hu : u.invalidates tp = true) :
    (w.use u).bridge.cache.get? tp = none := by
  cases u with
  | event ch e =>
      cases e with
      | operate op =>
          cases op with
          | invalidate tp' | unregister tp' =>
              have htp : tp' = tp := eq_of_beq hu
              subst htp
              exact Cache.get?_invalidate.trans (if_pos rfl)
          | invalidateTopic t | unregisterTopic t =>
              have ht : t = tp.topic := eq_of_beq hu
              subst ht
              exact Cache.get?_invalidateTopic.trans (if_pos rfl)
          | _ => cases hu
      | _ => cases hu
  | _ => cases hu

/-! ## Since the partition was deleted -/

theorem uses_append : w.uses (us ++ us') = (w.uses us).uses us' := List.foldl_append

theorem evolves_uses (w : World) (us : List Use) :
    w.bridge.store.nextObject ≤ (w.uses us).bridge.store.nextObject := by
  induction us generalizing w with
  | nil => exact Nat.le_refl _
  | cons u us ih => exact Nat.le_trans (evolves_use w u).next (ih _)

theorem tidy_uses (hs : w.bridge.store.Tidy) (us : List Use) :
    (w.uses us).bridge.store.Tidy :=
  uses_of_use (·.bridge.store.Tidy) (fun w u h ↦ (evolves_use w u).tidy h) hs us

/-- In the course of some uses the store makes this object for a partition. -/
def Makes (w : World) (us : List Use) (tp : TopicPartition) (n : Nat) : Prop :=
  ∃ before ch after, us = before ++ .event ch (.operate (.createPartition tp)) :: after ∧
    (w.uses before).bridge.store.object? tp = none ∧ (w.uses before).bridge.store.nextObject = n

/-- In the course of some uses somebody hands the cache this handle on a partition. -/
def HandsIn (w : World) (us : List Use) (tp : TopicPartition) (h : Handle) : Prop :=
  ∃ before u after, us = before ++ u :: after ∧ (w.uses before).handsIn u = some (tp, h)

theorem Makes.append (hm : w.Makes us tp n) (us' : List Use) : w.Makes (us ++ us') tp n := by
  obtain ⟨before, ch, after, rfl, hrest⟩ := hm
  exact ⟨before, ch, after ++ us', by simp, hrest⟩

theorem HandsIn.append (hh : w.HandsIn us tp h) (us' : List Use) : w.HandsIn (us ++ us') tp h := by
  obtain ⟨before, u, after, rfl, hrest⟩ := hh
  exact ⟨before, u, after ++ us', by simp, hrest⟩

theorem not_handsIn_nil : ¬ w.HandsIn [] tp h := by
  rintro ⟨before, u, after, heq, -⟩
  simp at heq

theorem handsIn_cons : w.HandsIn (u :: us) tp h ↔
    w.handsIn u = some (tp, h) ∨ (w.use u).HandsIn us tp h := by
  constructor
  · rintro ⟨before, u', after, heq, hin⟩
    cases before with
    | nil =>
        cases heq
        exact .inl hin
    | cons u'' before =>
        cases heq
        exact .inr ⟨before, u', after, rfl, hin⟩
  · rintro (hin | ⟨before, u', after, rfl, hin⟩)
    · exact ⟨[], u, us, rfl, hin⟩
    · exact ⟨u :: before, u', after, rfl, hin⟩

theorem Makes.new (hm : w.Makes us tp n) : w.bridge.store.nextObject ≤ n := by
  obtain ⟨before, ch, after, -, -, rfl⟩ := hm
  exact evolves_uses w before

/-- What the store serves was made since it served nothing. -/
theorem makes_of_served (hnone : w.bridge.store.object? tp = none)
    (hm : (w.uses us).bridge.store.object? tp = some m) : w.Makes us tp m := by
  induction us using List.reverseRecOn with
  | nil => cases hnone.symm.trans hm
  | append_singleton us u ih =>
      rw [uses_append] at hm
      rcases object?_use_cases hm with hold | ⟨⟨ch, rfl⟩, hgone, rfl⟩
      · exact (ih hold).append [u]
      · exact ⟨us, ch, [], rfl, hgone, rfl⟩

/-- What may be given out for a partition: an object that the store has made since it was deleted,
and whatever was handed in since it was invalidated. -/
def Since (d : World) (gone since : List Use) (tp : TopicPartition) (h : Handle) : Prop :=
  d.Makes (gone ++ since) tp h.object ∨ (d.uses gone).HandsIn since tp h

theorem Since.append (hh : d.Since gone since tp h) (us : List Use) :
    d.Since gone (since ++ us) tp h := by
  refine hh.imp (fun hm ↦ ?_) fun hh ↦ hh.append us
  rw [← List.append_assoc]
  exact hm.append us

theorem since_of_served (hnone : d.bridge.store.object? tp = none)
    (hm : ((d.uses gone).uses since).bridge.store.object? tp = some h.object) :
    d.Since gone since tp h :=
  .inl (makes_of_served hnone (by rwa [uses_append]))

/-- What is cached was made or handed in since nothing was. -/
theorem since_of_cached (hs : d.bridge.store.Tidy) (hnone : d.bridge.store.object? tp = none)
    (hempty : (d.uses gone).bridge.cache.get? tp = none)
    (hget : ((d.uses gone).uses since).bridge.cache.get? tp = some h) :
    d.Since gone since tp h := by
  induction since using List.reverseRecOn with
  | nil => cases hempty.symm.trans hget
  | append_singleton us u ih =>
      rw [uses_append] at hget
      rcases get?_use_cases (tidy_uses (tidy_uses hs gone) us) hget with hold | hserved | hin
      · exact (ih hold).append [u]
      · exact (since_of_served hnone hserved).append [u]
      · exact .inr ⟨us, u, [], rfl, hin⟩

/-! ## Calls -/

/-- What a call for a partition may be told: a handle of some kind, that there is no such partition,
or that it took too long. -/
def Given (tp : TopicPartition) (P : Handle → Prop) : Attempt Handle → Prop
  | .ok h => P h
  | .error e => e = .unknownPartition tp.text ∨ e = .resolutionTimeout tp.topic tp.partition

/-- If a task waits for a resolution of this partition that has come to a handle, then to one of
some kind. -/
structure Expects (w : World) (τ : Task) (tp : TopicPartition) (P : Handle → Prop) : Prop where
  landed : ∀ {p k t h}, w.callOf τ = some (.waiting p k t) → p.target = tp →
    w.bridge.flights.outcome? k = some (some (.found h)) → P h

variable {τ : Task}

theorem Expects.mono (hτ : w.Expects τ tp P) (hP : ∀ h, P h → P' h) : w.Expects τ tp P' :=
  ⟨fun hc htp ho ↦ hP _ (hτ.landed hc htp ho)⟩

/-- What a task is handed is cached, or what the resolution has come to for which it waited. -/
theorem Expects.given (hτ : w.Expects τ tp P)
    (hcached : ∀ h, w.bridge.cache.get? tp = some h → P h) {c : Call} {p : Purpose}
    {r : Attempt Handle} (hc : w.callOf τ = some c) (hh : w.bridge.handed w.now c = some (p, r))
    (htp : p.target = tp) : Given tp P r := by
  subst htp
  cases c with
  | asking p =>
      obtain ⟨h, hget, heq⟩ := Option.map_eq_some_iff.mp hh
      cases heq
      exact hcached h hget
  | waiting p k t =>
      simp only [Bridge.handed] at hh
      split at hh
      · rename_i outcome hout
        cases hh
        rcases outcome with _ | (h | _ | attempts)
        · exact .inr rfl
        · exact hτ.landed hc rfl hout
        · exact .inl rfl
        · exact .inr rfl
      · split at hh
        · cases hh
          exact .inr rfl
        · cases hh
  | _ => cases hh

/-- Resolutions that a task waits for come to what is cached or served as they end, and nobody joins
one that has ended. -/
theorem expects_step (hτ : w.Expects τ tp P) (haboard : w.Aboard)
    (hcached : ∀ h, w.bridge.cache.get? tp = some h → P h)
    (hserved : ∀ h, w.bridge.store.object? tp = some h.object → P h) (ch : Choice) (e : Event) :
    (w.step ch e).Expects τ tp P := by
  refine ⟨fun {p k t h} hc htp ho ↦ ?_⟩
  rcases waiting_step_cases hc with hwas | ⟨-, -, -, hbridge, rfl, -⟩
  · rcases yields_step w ch e ho with hold | ⟨f, hf, hyields⟩
    · exact hτ.landed hwas htp hold
    · have htarget : f.target = tp :=
        htp ▸ ((haboard.waits hwas).target (haboard.bridge.works_eq hf)).symm
      rw [htarget] at hyields
      exact hyields.elim (hcached h) (hserved h)
  · rw [hbridge, Bridge.joinFlight, Flights.outcome?_join] at ho
    cases (haboard.bridge.outcome?_joined p.target).symm.trans ho

theorem expects_use (hτ : w.Expects τ tp P) (haboard : w.Aboard)
    (hcached : ∀ h, w.bridge.cache.get? tp = some h → P h)
    (hserved : ∀ h, w.bridge.store.object? tp = some h.object → P h) (u : Use) :
    (w.use u).Expects τ tp P := by
  cases u with
  | event ch e => exact expects_step hτ haboard hcached hserved ch e
  | _ => exact ⟨hτ.landed⟩

/-- A task that does not wait for the partition at some time after it was invalidated is handed only
what was made or handed in since. -/
theorem expects_since (hs : d.bridge.store.Tidy) (haboard : d.Aboard)
    (hnone : d.bridge.store.object? tp = none)
    (hempty : (d.uses gone).bridge.cache.get? tp = none) {after : List Use}
    (hfree : ∀ p k t, ((d.uses gone).uses after).callOf τ = some (.waiting p k t) → p.target ≠ tp)
    (later : List Use) : ((d.uses gone).uses (after ++ later)).Expects τ tp
      (d.Since gone (after ++ later) tp) := by
  induction later using List.reverseRecOn with
  | nil =>
      refine ⟨fun {p k t h} hc htp ↦ ?_⟩
      rw [List.append_nil] at hc
      exact absurd htp (hfree p k t hc)
  | append_singleton later u ih =>
      rw [← List.append_assoc, uses_append]
      refine (expects_use ih (aboard_uses (aboard_uses haboard gone) _) (fun h hget ↦ ?_)
        (fun h hm ↦ ?_) u).mono fun h hh ↦ hh.append [u]
      · exact since_of_cached hs hnone hempty hget
      · exact since_of_served hnone hm

/-- A call for a partition, which is given a handle of some kind, or none. -/
structure Seeking (w : World) (m : Nat) (tp : TopicPartition) (P : Handle → Prop) : Prop where
  old : m < w.nextCall
  seeks : ∀ {c}, w.calls[m]? = some c → c.Seeks tp (Given tp P)

theorem Seeking.mono (hm : w.Seeking m tp P) (hP : ∀ h, P h → P' h) : w.Seeking m tp P' := by
  refine ⟨hm.old, fun hc ↦ (hm.seeks hc).mono fun r hr ↦ ?_⟩
  cases r with
  | ok h => exact hP h hr
  | error e => exact hr

theorem seeking_call (w : World) (tp : TopicPartition) (P : Handle → Prop) :
    (w.call (.resolve tp)).2.Seeking w.nextCall tp P := by
  refine ⟨Nat.lt_succ_self _, fun hc ↦ ?_⟩
  cases (w.calls_call (.resolve tp)).symm.trans hc
  exact .begun

theorem seeking_step (hm : w.Seeking m tp P) (hexpects : w.Expects (.call m) tp P)
    (hcached : ∀ h, w.bridge.cache.get? tp = some h → P h) (ch : Choice) (e : Event) :
    (w.step ch e).Seeking m tp P := by
  refine ⟨Nat.lt_of_lt_of_le hm.old nextCall_le_step, fun {c'} hc ↦ ?_⟩
  by_cases hcancel : e = .cancel m
  · subst hcancel
    cases calls_cancel.symm.trans hc
  · by_cases hstep : e = .step (.call m)
    · subst hstep
      cases hwas : w.calls[m]? with
      | none =>
          have hsame : w.step ch (.step (.call m)) = w := run_call_of_none hwas
          cases (hsame ▸ hwas).symm.trans hc
      | some c =>
          cases (calls_run_call hwas).symm.trans hc
          exact (hm.seeks hwas).stepCall (fun r hr ↦ hexpects.given hcached hwas hr rfl) ch.order
    · exact hm.seeks ((calls_step_of_ne hm.old hstep hcancel).symm.trans hc)

theorem seeking_use (hm : w.Seeking m tp P) (hexpects : w.Expects (.call m) tp P)
    (hcached : ∀ h, w.bridge.cache.get? tp = some h → P h) (u : Use) :
    (w.use u).Seeking m tp P := by
  cases u with
  | event ch e => exact seeking_step hm hexpects hcached ch e
  | _ => exact ⟨hm.old, hm.seeks⟩

/-- A call that begins after the partition was invalidated is given only what was made or handed in
since. -/
theorem seeking_since (hs : d.bridge.store.Tidy) (haboard : d.Aboard)
    (hnone : d.bridge.store.object? tp = none)
    (hempty : (d.uses gone).bridge.cache.get? tp = none) (after later : List Use) (ch : Choice) :
    ((d.uses gone).uses (after ++ .event ch (.call (.resolve tp)) :: later)).Seeking
      ((d.uses gone).uses after).nextCall tp
      (d.Since gone (after ++ .event ch (.call (.resolve tp)) :: later) tp) := by
  have hsplit : ∀ later, after ++ .event ch (.call (.resolve tp)) :: later =
      (after ++ [.event ch (.call (.resolve tp))]) ++ later := fun later ↦ by simp
  have hfree : ∀ p k t, ((d.uses gone).uses (after ++ [.event ch (.call (.resolve tp))])).callOf
      (.call ((d.uses gone).uses after).nextCall) = some (.waiting p k t) → p.target ≠ tp := by
    intro p k t hc
    rw [uses_append] at hc
    cases (((d.uses gone).uses after).calls_call (.resolve tp)).symm.trans hc
  induction later using List.reverseRecOn with
  | nil =>
      rw [uses_append]
      exact seeking_call _ tp _
  | append_singleton later u ih =>
      have hexpects := expects_since hs haboard hnone hempty hfree later
      rw [← hsplit] at hexpects
      rw [hsplit, ← List.append_assoc, ← hsplit, uses_append]
      refine (seeking_use ih hexpects (fun h hget ↦ ?_) u).mono fun h hh ↦ hh.append [u]
      exact since_of_cached hs hnone hempty hget

/-! ## Teardown -/

theorem settings_uses : (w.uses us).bridge.settings = w.bridge.settings := by
  induction us generalizing w with
  | nil => rfl
  | cons u us ih =>
      refine ih.trans ?_
      cases u with
      | event ch e => exact settings_step
      | _ => rfl

/-- **Teardown.**  A partition is deleted, and later invalidated, alone or with its topic.  Whoever
asks for it from then on, whatever goes on meanwhile, is not given the deleted object unless
somebody hands it to the cache again, but an object that the store has made for the partition since
it was deleted, or a handle that was handed to the cache since it was invalidated; or is told that
there is no such partition, or that it took too long.  One of these comes, if the call is run often
enough.

The same goes for whatever else needs the partition, be it a query for its range or a pass, of a
user or of the service, unless it has been waiting for it since before. -/
theorem torn_down_stays_gone (now : Nat) (settings : Bridge.Settings) (owner : String)
    (points : CursorPoints) (manualClock : Option Nat) (before between after later : List Use)
    (ch ch' : Choice) (u : Use) (tp : TopicPartition) (n : Nat) :
    let w := (new now (.new settings (.new owner points) manualClock)).uses before
    let d := w.use (.event ch (.operate (.deletePartition tp)))
    let gone := between ++ [u]
    let asked := (d.uses gone).uses after
    let since := after ++ .event ch' (.call (.resolve tp)) :: later
    w.bridge.store.object? tp = some n → u.invalidates tp = true →
    (∀ h, (d.uses gone).HandsIn since tp h → h.object ≠ n) →
    (∀ reply, ((d.uses gone).uses since).reply? asked.nextCall = some reply →
      (∃ h, reply = .handle (some h) ∧ h.object ≠ n ∧
        (d.Makes (gone ++ since) tp h.object ∨ (d.uses gone).HandsIn since tp h)) ∨
      reply = .failed (.unknownPartition tp.text) ∨
      reply = .failed (.resolutionTimeout tp.topic tp.partition)) ∧
    (∀ es, Attends (.call asked.nextCall) settings.callerWait 3 es →
      (∀ ch, (ch, .cancel asked.nextCall) ∉ es) →
      ∃ reply, ((asked.call (.resolve tp)).2.steps es).reply? asked.nextCall = some reply) ∧
    ∀ (more : List Use) (τ : Task),
      (∀ p k t, asked.callOf τ = some (.waiting p k t) → p.target ≠ tp) →
      (∀ h, (d.uses gone).HandsIn (after ++ more) tp h → h.object ≠ n) →
      let v := (d.uses gone).uses (after ++ more)
      ∀ c p r, v.callOf τ = some c → v.bridge.handed v.now c = some (p, r) → p.target = tp →
        (∃ h, r = .ok h ∧ h.object ≠ n ∧ (d.Makes (gone ++ (after ++ more)) tp h.object ∨
          (d.uses gone).HandsIn (after ++ more) tp h)) ∨
        r = .error (.unknownPartition tp.text) ∨
        r = .error (.resolutionTimeout tp.topic tp.partition) := by
  intro w d gone asked since hn hu hhands
  have htidy : w.bridge.store.Tidy := tidy_uses (Store.tidy_new owner points) before
  have haboard : w.Aboard := aboard_uses (aboard_new (Bridge.aboard_new ..) now) before
  have hdeleted : d.bridge.store.object? tp = none :=
    (Store.object?_deletePartition tp tp).trans (if_pos rfl)
  have hempty : (d.uses gone).bridge.cache.get? tp = none := by
    rw [uses_append]
    exact get?_use_of_invalidates hu
  have htidy' : d.bridge.store.Tidy := (evolves_use w _).tidy htidy
  -- an object that is made since has another number, and a handle that is handed in another object
  have hgiven : ∀ {since r}, (∀ h, (d.uses gone).HandsIn since tp h → h.object ≠ n) →
      Given tp (d.Since gone since tp) r →
      (∃ h, r = .ok h ∧ h.object ≠ n ∧
        (d.Makes (gone ++ since) tp h.object ∨ (d.uses gone).HandsIn since tp h)) ∨
      r = .error (.unknownPartition tp.text) ∨
      r = .error (.resolutionTimeout tp.topic tp.partition) := by
    intro since r hhands hr
    cases r with
    | ok h =>
        refine .inl ⟨h, rfl, ?_, hr⟩
        rcases hr with hmade | hhanded
        · exact Nat.ne_of_gt (Nat.lt_of_lt_of_le (htidy.old hn) hmade.new)
        · exact hhands h hhanded
    | error e => exact .inr (hr.imp (congrArg _) (congrArg _))
  refine ⟨fun reply hreply ↦ ?_, fun es hes hkept ↦ ?_, fun more τ hfree hhands ↦ ?_⟩
  · have hseeking := seeking_since htidy' (aboard_use haboard _) hdeleted hempty after later ch'
    obtain ⟨c, hc, hcr⟩ := Option.bind_eq_some_iff.mp hreply
    obtain ⟨r, hr, rfl⟩ := (hseeking.seeks hc).told_of_reply hcr
    rcases hgiven hhands hr with ⟨h, rfl, hh⟩ | rfl | rfl
    · exact .inl ⟨h, rfl, hh⟩
    · exact .inr (.inl rfl)
    · exact .inr (.inr rfl)
  · have hwait : (asked.call (.resolve tp)).2.bridge.settings.callerWait = settings.callerWait := by
      have hsettings : asked.bridge.settings = settings :=
        settings_uses.trans (settings_uses.trans settings_uses)
      exact congrArg Bridge.Settings.callerWait hsettings
    exact (nearsReply_call asked tp).exists_reply hkept (hwait.symm ▸ hes)
  · intro v c p r hc hh htp
    have hexpects := expects_since htidy' (aboard_use haboard _) hdeleted hempty hfree more
    have hcached : ∀ h, v.bridge.cache.get? tp = some h → d.Since gone (after ++ more) tp h :=
      fun h hget ↦ since_of_cached htidy' hdeleted hempty hget
    exact hgiven hhands (hexpects.given hcached hc hh htp)

/-- A bridge with one partition, which a resolution looks for. -/
def sought : World :=
  (new 0 (.new ⟨[], ⟨1, 1, 100, 3⟩, 5⟩ (.new "node" ∅) none)).uses
    [.event .plain (.operate (.createPartition ⟨"t", 0⟩)),
      .event .plain (.operate (.setLookupDelay 15)), .event .plain (.call (.resolve ⟨"t", 0⟩)),
      .event .plain (.step (.call 0)), .event .plain (.step (.call 0)), .fly .plain 0]

theorem object?_sought : sought.bridge.store.object? ⟨"t", 0⟩ = some 0 := rfl

/-- The partition is deleted. -/
def torn : World := sought.use (.event .plain (.operate (.deletePartition ⟨"t", 0⟩)))

/-- The partition is invalidated. -/
def invalidation : Use := .event .plain (.operate (.invalidate ⟨"t", 0⟩))

/-- Another call joins the resolution, which is answered. -/
def joining : List (Choice × Event) :=
  [(.plain, .elapse 5), (.plain, .step (.call 1)), (.plain, .elapse 5), (.plain, .step (.call 1)),
    (.plain, .elapse 5), (.plain, .step (.flight 0)), (.plain, .step (.call 1))]

/-- The partition is created again, and asked for. -/
def recreation : List Use :=
  .event .plain (.operate (.createPartition ⟨"t", 0⟩)) ::
    .event .plain (.call (.resolve ⟨"t", 0⟩)) :: joining.map fun (ch, e) ↦ .event ch e

theorem reply?_recreation :
    ((torn.uses [invalidation]).uses recreation).reply? 1 = some (.handle (some ⟨1, none⟩)) := rfl

/-- A query of its range joins the resolution as well, and is about to go on. -/
def requery : List Use :=
  .event .plain (.call (.minOffset ⟨"t", 0⟩)) :: joining.dropLast.map fun (ch, e) ↦ .event ch e

/-- The partition was created again, and is queried. -/
def requeried : World :=
  (torn.uses [invalidation]).uses (.event .plain (.operate (.createPartition ⟨"t", 0⟩)) :: requery)

/-- A call that joins a lookup from before the partition was deleted is given the object that the
store has made since, and so is a query of the partition's range. -/
theorem joined_stale_lookup :
    sought.bridge.store.object? ⟨"t", 0⟩ = some 0 ∧
      (∃ h, ((torn.uses [invalidation]).uses recreation).reply? 1 = some (.handle (some h)) ∧
        h.object ≠ 0 ∧ torn.Makes (invalidation :: recreation) ⟨"t", 0⟩ h.object) ∧
      ∃ c h, requeried.callOf (.call 1) = some c ∧
        requeried.bridge.handed requeried.now c = some (.minOffset ⟨"t", 0⟩, .ok h) ∧
        h.object ≠ 0 := by
  have again : ∀ {τ k} (before : List (Choice × Event)) {after}, 5 ≤ elapsed before →
      Attends τ 5 k after → Attends τ 5 (k + 1) (before ++ (.plain, .step τ) :: after) :=
    fun _ _ hwaited hafter ↦ .again hwaited hafter
  have hquiet : ∀ h, ¬ (torn.uses [invalidation]).HandsIn recreation ⟨"t", 0⟩ h :=
    fun h ↦ by simp [recreation, joining, handsIn_cons, not_handsIn_nil, handsIn]
  obtain ⟨hgiven, hreplies, hhanded⟩ := torn_down_stays_gone 0 ⟨[], ⟨1, 1, 100, 3⟩, 5⟩ "node" ∅ none
    _ [] [.event .plain (.operate (.createPartition ⟨"t", 0⟩))] _ .plain .plain invalidation
    ⟨"t", 0⟩ 0 object?_sought rfl fun h hh ↦ absurd hh (hquiet h)
  obtain ⟨reply, hreply⟩ := hreplies joining
    (again [(.plain, .elapse 5)] (by decide) <| again [(.plain, .elapse 5)] (by decide) <|
      again [(.plain, .elapse 5), (.plain, .step (.flight 0))] (by decide) .never)
    (by simp [joining])
  refine ⟨object?_sought, ?_, ?_⟩
  · rcases hgiven reply hreply with ⟨h, rfl, hne, hmade | hin⟩ | rfl | rfl
    · exact ⟨h, hreply, hne, hmade⟩
    · exact absurd hin (hquiet h)
    · cases reply?_recreation.symm.trans hreply
    · cases reply?_recreation.symm.trans hreply
  · have hasks : requeried.callOf (.call 1) = some (.waiting (.minOffset ⟨"t", 0⟩) 0 15) := rfl
    have hfinds : requeried.bridge.handed requeried.now (.waiting (.minOffset ⟨"t", 0⟩) 0 15) =
        some (.minOffset ⟨"t", 0⟩, .ok ⟨1, none⟩) := rfl
    have hnobody : ∀ h, ¬ (torn.uses [invalidation]).HandsIn
        (.event .plain (.operate (.createPartition ⟨"t", 0⟩)) :: requery) ⟨"t", 0⟩ h :=
      fun h ↦ by simp [requery, joining, handsIn_cons, not_handsIn_nil, handsIn]
    rcases hhanded requery (.call 1) (fun p k t hc ↦ by cases hc)
        (fun h hin ↦ absurd hin (hnobody h)) _ _ _ hasks hfinds rfl with
      ⟨h, heq, hne, -⟩ | hfailed | hfailed
    · cases heq
      exact ⟨_, _, hasks, hfinds, hne⟩
    · cases hfailed
    · cases hfailed

/-- A partition that nobody created is given out, when somebody has cached it. -/
def ownObject : List Use :=
  [.event .plain (.operate (.insertDetached (.new ⟨"t", 0⟩))),
    .event .plain (.call (.resolve ⟨"t", 0⟩)), .event .plain (.step (.call 1)),
    .event .plain (.step (.call 1))]

theorem reply?_ownObject :
    ((torn.uses [invalidation]).uses ownObject).reply? 1 = some (.handle (some ⟨1, none⟩)) := rfl

theorem handsIn_ownObject (hh : (torn.uses [invalidation]).HandsIn ownObject tp h) :
    h = ⟨1, none⟩ := by
  simp only [ownObject, handsIn_cons, not_handsIn_nil, handsIn, or_false, reduceCtorEq] at hh
  cases hh
  rfl

/-- A partition that nobody created may be given out, when it was handed to the cache. -/
theorem not_torn_down_serves_created_only :
    ¬ ∀ (now : Nat) (settings : Bridge.Settings) (owner : String) (points : CursorPoints)
      (manualClock : Option Nat) (before between after later : List Use) (ch ch' : Choice) (u : Use)
      (tp : TopicPartition) (n : Nat),
      let w := (new now (.new settings (.new owner points) manualClock)).uses before
      let d := w.use (.event ch (.operate (.deletePartition tp)))
      let gone := between ++ [u]
      let asked := (d.uses gone).uses after
      let since := after ++ .event ch' (.call (.resolve tp)) :: later
      w.bridge.store.object? tp = some n → u.invalidates tp = true →
      (∀ h, (d.uses gone).HandsIn since tp h → h.object ≠ n) →
      ∀ reply, ((d.uses gone).uses since).reply? asked.nextCall = some reply →
        (∃ h, reply = .handle (some h) ∧ d.Makes (gone ++ since) tp h.object) ∨
        reply = .failed (.unknownPartition tp.text) ∨
        reply = .failed (.resolutionTimeout tp.topic tp.partition) := by
  intro hall
  have hgiven := hall 0 ⟨[], ⟨1, 1, 100, 3⟩, 5⟩ "node" ∅ none _ []
    [.event .plain (.operate (.insertDetached (.new ⟨"t", 0⟩)))] _ .plain .plain invalidation
    ⟨"t", 0⟩ 0 object?_sought rfl (fun h hh ↦ by simp [handsIn_ownObject hh]) _ reply?_ownObject
  rcases hgiven with ⟨h, -, before, ch, after, heq, -⟩ | hfailed | hfailed
  · have hmem : Use.event ch (.operate (.createPartition ⟨"t", 0⟩)) ∈ invalidation :: ownObject :=
      (congrArg _ heq).mpr (List.mem_append_right before (List.mem_cons_self ..))
    simp [invalidation, ownObject] at hmem
  · cases hfailed
  · cases hfailed

end World

end GroupOffsets
