import TigerBeetle.Theorems.DoubleEntry
import TigerBeetle.Theorems.Provision

namespace TigerBeetle.Accounting

open Fallible HashMap Orchestrator Fault

theorem expect_contained {α : Type} {value : Option α} {message : String}
    (h : (Fault.panic .general message).Contained) :
    Meets Contained (fun _ => True) (expect value message) := by
  unfold expect
  cases value with
  | none   => exact h
  | some _ => trivial

variable {timestamp : Nat}

theorem createAccount_contained {a : Account} {existing : Option Account} :
    Meets Contained (fun _ => True) (createAccount a timestamp existing) := by
  unfold createAccount createAccountExists
  cases existing <;> simp [Meets.ite_iff]

variable {t : Transfer}

theorem createTransferExists_contained {e : Transfer} :
    Meets Contained (fun _ => True) (createTransferExists t e) := by
  unfold createTransferExists
  simp [Meets.ite_iff]

variable {dr cr : Account}

theorem createTransfer_contained {existing : Option Transfer} :
    Meets Contained (fun _ => True) (createTransfer t timestamp existing dr cr) := by
  unfold createTransfer createTransferBalances
  cases existing with
  | some e => simp [Meets.ite_iff, createTransferExists_contained]
  | none =>
    cases createTransferFields t <;> simp [Meets.ite_iff]

theorem createTransferOutcome_contained {existing : Option Transfer} :
    Meets Contained (fun _ => True) (createTransferOutcome t timestamp existing dr cr) := by
  unfold createTransferOutcome
  simp [createTransfer_contained]

variable {amount : U128} {event : Transfer}

theorem commitTransferAccounts_id : (commitTransferAccounts event amount dr cr).1.id = dr.id ∧
      (commitTransferAccounts event amount dr cr).2.id = cr.id := by
  unfold commitTransferAccounts
  constructor <;> (dsimp only; split <;> split <;> rfl)

theorem commitPostVoidAccounts_contained {p : Transfer} :
    Meets Contained (fun _ => True) (commitPostVoidAccounts event p amount dr cr) := by
  unfold commitPostVoidAccounts
  simp [Meets.ite_iff]

variable {status : TransferPendingStatus} {runningKeyMax : Nat}

theorem postOrVoidPendingTransfer_contained {p : Transfer}
    {accountTimestamps accountTimestampsEnqueued : List Nat} :
    Meets Contained (fun _ => True)
      (postOrVoidPendingTransfer t timestamp p dr cr status runningKeyMax accountTimestamps
        accountTimestampsEnqueued) := by
  unfold postOrVoidPendingTransfer
  cases status <;> simp [Meets.ite_iff]

theorem postOrVoidPendingTransferExists_contained {e p : Transfer} :
    Meets Contained (fun _ => True) (postOrVoidPendingTransferExists t e p) := by
  unfold postOrVoidPendingTransferExists
  simp [Meets.ite_iff]

section

variable [Hasher] {limits : CacheMapOptions} {values actions timestamp : Nat}

namespace AccountsBatch

variable {batch : AccountsBatch} {event : Account} {state : AccountsState}

omit [Hasher] in
theorem regresses_contained {existing : Option Account} :
    Meets Contained (fun _ => True) (batch.regresses event timestamp runningKeyMax existing) := by
  unfold regresses
  simp [Meets.ite_iff]

-- An event of a batch of accounts adds an account at most.
theorem execute_contained {P : AccountObjectsCache → Prop} (hu : CacheMap.Usable P)
    (hp : P state.accountsObjects) (ht : timestamp ≤ batch.timestamp)
    (hb : batch.timestamp ≤ TimestampRange.timestampMax)
    (hs : state.accountsObjects.Spare limits (values + 1) (actions + 1)) :
    Meets Contained (fun r => r.2.accountsObjects.Spare limits values actions)
      (batch.execute event timestamp state) := by
  have hget := hu.get _ event.id hp
  have hs' : (state.accountsObjects.get event.id).2.Spare limits (values + 1) (actions + 1) :=
    hs.get (hu.sound _ hp)
  have hkept : (state.accountsObjects.get event.id).2.Spare limits values actions :=
    hs'.mono (Nat.le_succ _) fun _ => Nat.le_succ _
  unfold execute
  cases hr : batch.reject event with
  | some status => exact hs.mono (Nat.le_succ _) fun _ => Nat.le_succ _
  | none =>
    have hvalid : (if event.flags.imported then event.timestamp else timestamp) ≤
        TimestampRange.timestampMax := by
      split
      · next hi =>
        have := lt_of_reject hr hi
        omega
      · omega
    simp only [Meets.bind_eq, meets_assert_eq, Meets.ite_iff, Meets.pure_eq]
    refine ⟨fun _ => regresses_contained.weaken fun _ _ => ⟨fun _ => hkept, fun _ => ?_⟩, by simp⟩
    refine createAccount_contained.weaken
      fun status _ => ⟨fun _ => ?_, fun _ => ⟨fun _ => ?_, fun _ =>
      hkept⟩⟩
    · refine hs'.insert (hu.sound _ hget) ?_
      simpa [CacheMapSpec.tombstone] using not_tombstone hvalid
    · cases (state.accountsObjects.get event.id).1 with
      | none   => simp
      | some _ => exact hkept

theorem provides (hb : batch.timestamp ≤ TimestampRange.timestampMax) :
    (batch.law hb).Provides limits.scopeValueCountMax
      fun state values actions => state.accountsObjects.Spare limits values actions where
  mono _ _ _ _ _ h hv ha := h.mono hv fun _ => ha
  idle _ _ _ _ hi h := h.mono (Nat.le_refl _) fun ha => absurd (hi.inactive.symm.trans ha)
    Bool.false_ne_true
  scopeOpen _ _ _ h := by
    simp only [orchestrator, Meets.bind_eq, Meets.pure_eq]
    exact h.scopeOpen
  execute event t state _ _ ht h hs := by
    cases h with
    | inl h => exact execute_contained CacheMap.usable_idle h ht hb hs
    | inr h =>
      obtain ⟨_, h⟩ := h
      exact execute_contained CacheMap.usable_scoped h ht hb hs
  orphan _ _ _ _ _ h := h
  discard _ _ _ _ h hs := by
    simp only [orchestrator, Meets.bind_eq, Meets.pure_eq]
    exact hs.discard h _
  complete broken _ _ _ hs := by
    cases broken
    · simp only [orchestrator, Bool.false_eq_true, ↓reduceIte, Meets.bind_eq, Meets.pure_eq]
      exact hs.persist _
    · exact hs

end AccountsBatch

-- Room for so many more records, and for so many more of the transfers of a chain. The accounts
-- of a transfer are in the cache already.
structure TransfersState.Spare (limits : CacheMapOptions) (state : TransfersState)
    (values actions : Nat) : Prop where
  accounts : state.accountsObjects.Spare limits 0 (2 * actions)
  transfers : state.transfersObjects.Spare limits values actions
  pendings : state.transfersPendingObjects.Spare limits values actions

theorem TransfersState.Spare.mono {state : TransfersState} {values' actions' : Nat}
    (h : state.Spare limits values actions) (hv : values' ≤ values) (ha : actions' ≤ actions) :
    state.Spare limits values' actions' where
  accounts := h.accounts.mono (Nat.le_refl _) fun _ => by omega
  transfers := h.transfers.mono hv fun _ => ha
  pendings := h.pendings.mono hv fun _ => ha

variable {account : Account}

namespace TransfersBatch

variable {batch : TransfersBatch} {event : Transfer} {state : TransfersState}
    {existing : Option Transfer} {P₁ : AccountObjectsCache → Prop}
    {P₂ : TransferObjectsCache → Prop} {P₃ : TransferPendingObjectsCache → Prop}

omit [Hasher] in
theorem regresses_contained :
    Meets Contained (fun _ => True) (batch.regresses event timestamp runningKeyMax existing) := by
  unfold regresses
  simp [Meets.ite_iff]

section Usable

variable (h₁ : CacheMap.Usable P₁) (h₂ : CacheMap.Usable P₂) (h₃ : CacheMap.Usable P₃)
variable {objects : AccountObjectsCache}

include h₁ in
theorem readCachedAccount_contained {prefetch : TransferPrefetchKeys} {id : U128} (hp : P₁ objects)
    (hs : objects.Spare limits values actions) :
    Meets Contained
      (fun (r : Option Account × AccountObjectsCache) => r.2.Spare limits values actions ∧
        r.1 = objects.view id ∧ P₁ r.2 ∧ r.2.view = objects.view)
      (readCachedAccount objects prefetch id) := by
  refine Meets.and_post ?_ (readCachedAccount_meets h₁ hp)
  unfold readCachedAccount
  simp only [Meets.bind_eq, Meets.pure_eq, meets_assert_eq]
  exact ⟨fun _ => hs.get (h₁.sound _ hp), by simp⟩

include h₁ in
theorem putAccounts_contained (hp : P₁ objects)
    (hs : objects.Spare limits values (actions + 2))
    (hd : dr.timestamp.testBit tombstoneBit = false)
    (hc : cr.timestamp.testBit tombstoneBit = false) (hdv : (objects.view dr.id).isSome = true)
    (hcv : (objects.view cr.id).isSome = true) :
    Meets Contained
      (fun objects₁ => Meets Contained (fun objects₂ => objects₂.Spare limits values actions)
        (objects₁.upsert cr))
      (objects.upsert dr) := by
  have hd : (!CacheMapSpec.tombstone dr) = true := by simpa [CacheMapSpec.tombstone] using hd
  have hc : (!CacheMapSpec.tombstone cr) = true := by simpa [CacheMapSpec.tombstone] using hc
  refine ((hs.update (h₁.sound _ hp) hd hdv).and_post (h₁.upsert _ dr hp hd)).weaken
    fun objects₁ ⟨hs₁, hp₁, hv₁⟩ => ?_
  refine hs₁.update (h₁.sound _ hp₁) hc ?_
  rw [hv₁, Function.update_apply]
  split
  · rfl
  · exact hcv

include h₁ in
-- An account that has been read is put back under its own id.
theorem isSome_view (hp : P₁ objects) {id : U128} (h : objects.view id = some account) :
    (objects.view account.id).isSome = true := by
  have hid : account.id = id := (h₁.sound _ hp).keyFromValue_eq h
  rw [hid, h]
  rfl

include h₁ h₂ h₃ in
theorem transfer_contained (hs : Caches P₁ P₂ P₃ state)
    (hspare : state.Spare limits (values + 1) (actions + 1))
    (hvalid : (if event.flags.imported then event.timestamp else timestamp) ≤
      TimestampRange.timestampMax)
    (hd : state.accountsObjects.view event.debitAccountId = some dr)
    (hc : state.accountsObjects.view event.creditAccountId = some cr) :
    Meets Contained (fun r => r.2.Spare limits values actions)
      (batch.transfer event timestamp existing dr cr state) := by
  have hkept : state.Spare limits values actions := hspare.mono (Nat.le_succ _) (Nat.le_succ _)
  unfold transfer
  simp only [Meets.bind_eq, Meets.ite_iff, Meets.pure_eq]
  refine regresses_contained.weaken fun _ _ => ⟨fun _ => hkept, fun _ => ?_⟩
  refine createTransferOutcome_contained.weaken
    fun outcome _ => ⟨fun _ => ?_, fun _ => ⟨fun _ => ?_,
    fun _ => hkept⟩⟩
  case refine_2 =>
    cases existing with
    | none   => simp
    | some _ => exact hkept
  have ht := not_tombstone hvalid
  have hd' := not_tombstone_of_view h₁ hs.accounts hd
  have hc' := not_tombstone_of_view h₁ hs.accounts hc
  have htimestamps := @commitTransferAccounts_timestamp dr cr event outcome.amountActual
  have hids := @commitTransferAccounts_id dr cr outcome.amountActual event
  rw [← htimestamps.1] at hd'
  rw [← htimestamps.2] at hc'
  refine (putAccounts_contained h₁ hs.accounts hspare.accounts hd' hc'
    (hids.1 ▸ isSome_view h₁ hs.accounts hd) (hids.2 ▸ isSome_view h₁ hs.accounts hc)).weaken
    fun _ h => h.weaken fun objects hobjects => ?_
  refine (hspare.transfers.insert (h₂.sound _ hs.transfers)
    (by simpa [CacheMapSpec.tombstone] using ht)).weaken
    fun transfers htransfers => ⟨fun _ => ?_, fun _ => ⟨hobjects, htransfers, hkept.pendings⟩⟩
  exact (hspare.pendings.insert (h₃.sound _ hs.pendings)
    (by simpa [CacheMapSpec.tombstone] using ht)).weaken
    fun pendings hpendings => ⟨hobjects, htransfers, hpendings⟩

include h₁ h₂ h₃ in
theorem plain_contained (hs : Caches P₁ P₂ P₃ state)
    (hspare : state.Spare limits (values + 1) (actions + 1))
    (hvalid : (if event.flags.imported then event.timestamp else timestamp) ≤
      TimestampRange.timestampMax) :
    Meets Contained (fun r => r.2.Spare limits values actions)
      (batch.plain event timestamp existing state) := by
  unfold plain
  simp only [Meets.bind_eq]
  refine (readCachedAccount_contained h₁ hs.accounts hspare.accounts).weaken
    fun ⟨dr, objects₁⟩ ⟨hs₁, hd, hp₁, hv₁⟩ => ?_
  refine (readCachedAccount_contained h₁ hp₁ hs₁).weaken
    fun ⟨cr, objects₂⟩ ⟨hs₂, hc, hp₂, hv₂⟩ => ?_
  dsimp only at hs₁ hd hp₁ hv₁ hs₂ hc hp₂ hv₂ ⊢
  have hspare' : ({ state with accountsObjects := objects₂ } : TransfersState).Spare limits
      (values + 1) (actions + 1) := ⟨hs₂, hspare.transfers, hspare.pendings⟩
  have hkept := hspare'.mono (Nat.le_succ _) (Nat.le_succ _)
  cases dr with
  | none => cases cr <;> exact hkept
  | some dr =>
    cases cr with
    | none => exact hkept
    | some cr =>
      refine transfer_contained h₁ h₂ h₃ ⟨hp₂, hs.transfers, hs.pendings⟩ hspare' hvalid ?_ ?_
      · exact ((congrFun (hv₂.trans hv₁) _).trans hd.symm)
      · exact ((congrFun hv₂ _).trans hc.symm)

include h₁ h₂ h₃ in
theorem resolve_contained {pending : Option Transfer} (hs : Caches P₁ P₂ P₃ state)
    (hspare : state.Spare limits (values + 1) (actions + 1))
    (hvalid : (if event.flags.imported then event.timestamp else timestamp) ≤
      TimestampRange.timestampMax)
    (hpend : pending = state.transfersObjects.view event.pendingId) :
    Meets Contained (fun r => r.2.Spare limits values actions)
      (batch.resolve event timestamp pending state) := by
  unfold resolve
  cases pending with
  | none => exact hspare.mono (Nat.le_succ _) (Nat.le_succ _)
  | some p =>
    simp only [Meets.ite_iff, Meets.bind_eq, Meets.pure_eq]
    refine ⟨fun _ => hspare.mono (Nat.le_succ _) (Nat.le_succ _), fun _ => ?_⟩
    refine (readCachedAccount_contained h₁ hs.accounts hspare.accounts).weaken
      fun ⟨dr, objects₁⟩ ⟨hs₁, hd, hp₁, hv₁⟩ => ?_
    refine ((expect_contained (by simp)).and_post expect_meets).weaken fun dr ⟨_, hd'⟩ => ?_
    refine (readCachedAccount_contained h₁ hp₁ hs₁).weaken
      fun ⟨cr, objects₂⟩ ⟨hs₂, hc, hp₂, hv₂⟩ => ?_
    refine ((expect_contained (by simp)).and_post expect_meets).weaken fun cr ⟨_, hc'⟩ => ?_
    dsimp only at hs₁ hd hd' hp₁ hv₁ hs₂ hc hc' hp₂ hv₂ ⊢
    have hd : objects₂.view p.debitAccountId = some dr := by rw [hv₂, hv₁, ← hd, hd']
    have hc : objects₂.view p.creditAccountId = some cr := by rw [hv₂, ← hc, hc']
    have hp₃ := h₃.get _ p.timestamp hs.pendings
    have hs₃ := @CacheMap.Spare.get _ _ _ _ _ p.timestamp _ _ _ hspare.pendings
      (h₃.sound _ hs.pendings)
    simp only [meets_assert_eq]
    refine ⟨fun _ => ?_, by simp⟩
    refine postOrVoidPendingTransfer_contained.weaken fun result _ => ⟨fun _ => ?_, fun _ => ?_⟩
    case refine_2 =>
      exact ⟨hs₂.mono (Nat.le_refl _) fun _ => by omega, (hspare.mono (Nat.le_succ _)
        (Nat.le_succ _)).transfers, hs₃.mono (Nat.le_succ _) fun _ => Nat.le_succ _⟩
    have ht := not_tombstone hvalid
    have hptomb : p.timestamp.testBit tombstoneBit = false :=
      (h₂.sound _ hs.transfers).tombstone_eq hpend.symm
    refine (hs₃.insert (h₃.sound _ hp₃) (by simpa [CacheMapSpec.tombstone] using hptomb)).weaken
      fun pendings hpendings => ?_
    refine (commitPostVoidAccounts_contained.and_post commitPostVoidAccounts_meets).weaken
      fun ⟨dr', cr'⟩ ⟨_, hdid, hdt, hcid, hct⟩ => ?_
    dsimp only at hdid hdt hcid hct ⊢
    have hd' := not_tombstone_of_view h₁ hp₂ hd
    have hc' := not_tombstone_of_view h₁ hp₂ hc
    refine (putAccounts_contained h₁ hp₂ hs₂ (hdt ▸ hd') (hct ▸ hc')
      (hdid ▸ isSome_view h₁ hp₂ hd) (hcid ▸ isSome_view h₁ hp₂ hc)).weaken
      fun _ h => h.weaken fun objects hobjects => ?_
    exact (hspare.transfers.insert (h₂.sound _ hs.transfers)
      (by simpa [CacheMapSpec.tombstone, foldPostVoidTransfer] using ht)).weaken
      fun transfers htransfers => ⟨hobjects, htransfers, hpendings⟩

include h₁ h₂ h₃ in
theorem postOrVoid_contained (hs : Caches P₁ P₂ P₃ state)
    (hspare : state.Spare limits (values + 1) (actions + 1))
    (hvalid : (if event.flags.imported then event.timestamp else timestamp) ≤
      TimestampRange.timestampMax) :
    Meets Contained (fun r => r.2.Spare limits values actions)
      (batch.postOrVoid event timestamp existing state) := by
  have hkept := hspare.mono (Nat.le_succ _) (Nat.le_succ _)
  have hspare' : ({ state with
      transfersObjects := (state.transfersObjects.get event.pendingId).2 } : TransfersState).Spare
      limits (values + 1) (actions + 1) :=
    ⟨hspare.accounts, hspare.transfers.get (h₂.sound _ hs.transfers), hspare.pendings⟩
  have hkept' := hspare'.mono (Nat.le_succ _) (Nat.le_succ _)
  unfold postOrVoid
  simp only [Meets.bind_eq, Meets.ite_iff, Meets.pure_eq, meets_assert_eq]
  refine ⟨fun _ => hkept, fun _ => ⟨fun _ => hkept, fun _ => ⟨fun _ => hkept, fun _ =>
    ⟨fun _ => ?_, by simp⟩⟩⟩⟩
  cases existing with
  | none =>
    refine resolve_contained h₁ h₂ h₃ ⟨hs.accounts, h₂.get _ _ hs.transfers, hs.pendings⟩ hspare'
      hvalid ?_
    rw [h₂.get_fst _ hs.transfers]
    exact (congrFun (h₂.view_get _ hs.transfers) _).symm
  | some e =>
    simp only [Meets.bind_eq, Meets.ite_iff, Meets.pure_eq]
    refine ⟨fun _ => hkept', fun _ => ⟨fun _ => hkept', fun _ => ⟨fun _ => hkept', fun _ => ?_⟩⟩⟩
    refine (expect_contained (by simp)).weaken fun p _ => ?_
    exact postOrVoidPendingTransferExists_contained.weaken fun _ _ => hkept'

include h₁ h₂ h₃ in
-- An event of a batch of transfers adds a transfer and a status of a pending one at most.
theorem execute_contained (hs : Caches P₁ P₂ P₃ state) (ht : timestamp ≤ batch.timestamp)
    (hb : batch.timestamp ≤ TimestampRange.timestampMax)
    (hspare : state.Spare limits (values + 1) (actions + 1)) :
    Meets Contained (fun r => r.2.Spare limits values actions)
      (batch.execute event timestamp state) := by
  unfold execute
  cases hr : batch.reject event with
  | some status => exact hspare.mono (Nat.le_succ _) (Nat.le_succ _)
  | none =>
    have hvalid : (if event.flags.imported then event.timestamp else timestamp) ≤
        TimestampRange.timestampMax := by
      split
      · next hi =>
        have := lt_of_reject hr hi
        omega
      · omega
    have ⟨hs', _⟩ := hs.looked h₂ event.id
    have hspare' : ({ state with transfersObjects := (state.transfersObjects.get event.id).2 } :
        TransfersState).Spare limits (values + 1) (actions + 1) :=
      ⟨hspare.accounts, hspare.transfers.get (h₂.sound _ hs.transfers), hspare.pendings⟩
    simp only [Meets.bind_eq, Meets.ite_iff, Meets.pure_eq, meets_assert_eq]
    exact ⟨fun _ => ⟨fun _ => hspare'.mono (Nat.le_succ _) (Nat.le_succ _), fun _ =>
      ⟨fun _ => postOrVoid_contained h₁ h₂ h₃ hs' hspare' hvalid,
        fun _ => plain_contained h₁ h₂ h₃ hs' hspare' hvalid⟩⟩, by simp⟩

end Usable

theorem provides (hb : batch.timestamp ≤ TimestampRange.timestampMax) :
    (batch.law hb).Provides (limits.scopeValueCountMax / 2) (TransfersState.Spare limits) where
  mono _ _ _ _ _ h hv ha := h.mono hv ha
  idle _ _ _ _ hi h :=
    ⟨h.accounts.mono (Nat.le_refl _) fun ha => absurd (hi.accounts.inactive.symm.trans ha) nofun,
      h.transfers.mono (Nat.le_refl _) fun ha => absurd (hi.transfers.inactive.symm.trans ha) nofun,
      h.pendings.mono (Nat.le_refl _) fun ha => absurd (hi.pendings.inactive.symm.trans ha) nofun⟩
  scopeOpen _ _ _ h := by
    simp only [orchestrator, Meets.bind_eq, Meets.pure_eq]
    refine h.accounts.scopeOpen.weaken fun _ h₁ => h.transfers.scopeOpen.weaken fun _ h₂ => ?_
    refine h.pendings.scopeOpen.weaken fun _ h₃ => ⟨?_, ?_, ?_⟩
    · exact h₁.mono (Nat.le_refl _) fun _ => by omega
    · exact h₂.mono (Nat.le_refl _) fun _ => by omega
    · exact h₃.mono (Nat.le_refl _) fun _ => by omega
  execute event t state _ _ ht h hs := by
    cases h with
    | inl h =>
      exact execute_contained CacheMap.usable_idle CacheMap.usable_idle CacheMap.usable_idle
        h ht hb hs
    | inr h =>
      have ⟨_, h, _⟩ := h
      exact execute_contained CacheMap.usable_scoped CacheMap.usable_scoped
        CacheMap.usable_scoped h ht hb hs
  orphan _ _ _ _ _ h := by
    simp only [orchestrator]
    split
    · exact ⟨h.accounts, h.transfers, h.pendings⟩
    · exact h
  discard _ _ _ actions h hs := by
    simp only [orchestrator, Meets.bind_eq, Meets.pure_eq]
    refine (hs.accounts.discard h.1.accounts (2 * actions)).weaken fun _ h₁ => ?_
    refine (hs.transfers.discard h.1.transfers actions).weaken fun _ h₂ => ?_
    exact (hs.pendings.discard h.1.pendings actions).weaken fun _ h₃ => ⟨h₁, h₂, h₃⟩
  complete broken _ _ actions hs := by
    cases broken
    · simp only [orchestrator, Bool.false_eq_true, ↓reduceIte, Meets.bind_eq, Meets.pure_eq]
      refine (hs.accounts.persist (2 * actions)).weaken fun _ h₁ => ?_
      refine (hs.transfers.persist actions).weaken fun _ h₂ => ?_
      exact (hs.pendings.persist actions).weaken fun _ h₃ => ⟨h₁, h₂, h₃⟩
    · exact ⟨hs.accounts, hs.transfers, hs.pendings⟩

end TransfersBatch

namespace StateMachine

variable {sm : StateMachine}

omit [Hasher] in
theorem insertAccount_contained :
    Meets Contained (fun sm' => Keeps sm sm') (sm.insertAccount account.id account) := by
  refine Meets.weaken (fun _ ⟨_, _, h⟩ => h) (Meets.and_post (Q := fun _ => True) ?_
    insertAccount_meets)
  unfold insertAccount
  simp

omit [Hasher] in
theorem updateAccount_contained :
    Meets Contained (fun sm' => Keeps sm sm') (sm.updateAccount account) := by
  refine Meets.weaken (fun _ ⟨_, _, h⟩ => h) (Meets.and_post (Q := fun _ => True) ?_
    updateAccount_meets)
  unfold updateAccount
  rw [Meets.bind_iff]
  exact (expect_contained (by simp)).weaken fun _ _ => by simp

omit [Hasher] in
theorem insertTransfer_contained {record : Transfer} :
    Meets Contained (fun sm' => Keeps sm sm') (sm.insertTransfer record.id record) := by
  refine Meets.weaken (fun _ ⟨_, _, _, h⟩ => h) (Meets.and_post (Q := fun _ => True) ?_
    insertTransfer_meets)
  unfold insertTransfer
  simp

omit [Hasher] in
theorem insertTransferPending_contained {pending : TransferPending} :
    Meets Contained (fun sm' => Keeps sm sm') (sm.insertTransferPending pending) := by
  refine Meets.weaken (fun _ ⟨_, _, h⟩ => h) (Meets.and_post (Q := fun _ => True) ?_
    insertTransferPending_meets)
  unfold insertTransferPending
  simp

omit [Hasher] in
theorem updateTransferPendingStatus_contained {t : Nat} :
    Meets Contained (fun sm' => Keeps sm sm') (sm.updateTransferPendingStatus t status) := by
  refine Meets.weaken (fun _ ⟨_, _, _, h⟩ => h) (Meets.and_post (Q := fun _ => True) ?_
    updateTransferPendingStatus_meets)
  unfold updateTransferPendingStatus
  rw [Meets.bind_iff]
  exact (expect_contained (by simp)).weaken fun _ _ => by simp

omit [Hasher] in
theorem accountEvent_contained {t : Nat} {flags : TransferFlags} {pending : Option Transfer}
    {requested : U128} :
    Meets Contained (fun sm' => Keeps sm sm')
      (sm.accountEvent t dr cr flags status pending requested amount) := by
  refine Meets.weaken (fun _ ⟨_, _, _, h⟩ => h) (Meets.and_post (Q := fun _ => True) ?_
    accountEvent_meets)
  unfold accountEvent
  cases status <;> simp

omit [Hasher] in
theorem expiring_contained {message : String} (h : (Fault.panic .general message).Contained) :
    Meets Contained (fun _ => True) (sm.expiring message) := by
  unfold expiring
  simp only [Meets.bind_eq, Meets.pure_eq]
  refine Meets.weaken (fun _ _ => trivial) (mapM_meets (Q := fun _ => True) fun row _ => ?_)
  simp only [Meets.ite_iff, Meets.pure_eq, Meets.bind_eq, implies_true, true_and]
  intro _
  refine (expect_contained h).weaken fun _ _ => (expect_contained h).weaken fun _ _ => ?_
  simp

omit [Hasher] in
theorem updatePulseNextTimestamp_contained :
    Meets Contained (fun sm' => Keeps sm sm') sm.updatePulseNextTimestamp := by
  refine Meets.weaken (fun _ ⟨_, _, h⟩ => h) (Meets.and_post (Q := fun _ => True) ?_
    updatePulseNextTimestamp_meets)
  unfold updatePulseNextTimestamp
  rw [Meets.bind_iff]
  exact (expiring_contained (by simp)).weaken fun _ _ => trivial

omit [Hasher] in
theorem commitTransfer_contained {record : Transfer} {requested : U128} :
    Meets Contained (fun sm' => Keeps sm sm') (sm.commitTransfer record amount requested) := by
  unfold commitTransfer
  simp only [Meets.bind_eq]
  refine (expect_contained (by simp)).weaken fun dr _ => ?_
  refine (expect_contained (by simp)).weaken fun cr _ => ?_
  refine updateAccount_contained.weaken fun sm₁ k₁ => ?_
  refine updateAccount_contained.weaken fun sm₂ k₂ => ?_
  refine accountEvent_contained.weaken fun sm₃ k₃ => ?_
  have hk := (k₁.trans k₂).trans k₃
  simp only [Meets.ite_iff, Meets.bind_eq, Meets.pure_eq, meets_assert_eq]
  exact ⟨fun _ => ⟨fun _ => ⟨fun _ => ⟨hk.1, hk.2, hk.3, hk.4⟩, by simp⟩, by simp⟩, fun _ => hk⟩

omit [Hasher] in
theorem persistPostVoid_contained :
    Meets Contained (fun sm' => Keeps sm sm') (sm.persistPostVoid event amount) := by
  unfold persistPostVoid
  simp only [Meets.bind_eq]
  refine (expect_contained (by simp)).weaken fun p _ => ?_
  refine insertTransfer_contained.weaken fun sm₁ k₁ => ?_
  refine updateTransferPendingStatus_contained.weaken fun sm₂ k₂ => ?_
  refine (expect_contained (by simp)).weaken fun dr _ => ?_
  refine (expect_contained (by simp)).weaken fun cr _ => ?_
  refine commitPostVoidAccounts_contained.weaken fun _ _ => ?_
  refine updateAccount_contained.weaken fun sm₃ k₃ => ?_
  refine updateAccount_contained.weaken fun sm₄ k₄ => ?_
  refine accountEvent_contained.weaken fun sm₅ k₅ => ?_
  exact updatePulseNextTimestamp_contained.weaken fun sm₆ k₆ =>
    ((((k₁.trans k₂).trans k₃).trans k₄).trans k₅).trans k₆

omit [Hasher] in
theorem persistTransfer_contained :
    Meets Contained (fun sm' => Keeps sm sm') (sm.persistTransfer event amount) := by
  unfold persistTransfer
  simp only [Meets.ite_iff, Meets.bind_eq]
  refine ⟨fun _ => ?_, fun _ => ⟨fun _ => persistPostVoid_contained, fun _ => ?_⟩⟩
  · refine insertTransfer_contained.weaken fun sm₁ k₁ => ?_
    refine insertTransferPending_contained.weaken fun sm₂ k₂ => ?_
    exact commitTransfer_contained.weaken fun sm₃ k₃ => (k₁.trans k₂).trans k₃
  · refine insertTransfer_contained.weaken fun sm₁ k₁ => ?_
    exact commitTransfer_contained.weaken fun sm₂ k₂ => k₁.trans k₂

omit [Hasher] in
theorem persistAccounts_contained {events : List Account} {results : List CreateAccountResult} :
    Meets Contained (fun sm' => Keeps sm sm') (sm.persistAccounts events results timestamp) := by
  refine persistBatch_meets (fun index event result sm' k => ?_) Keeps.refl
  unfold persistAccountEvent
  simp only [Meets.ite_iff, Meets.bind_eq, Meets.pure_eq, meets_assert_eq]
  have hinsert : ∀ event : Account, Meets Contained (fun sm'' => Keeps sm sm'')
      (sm'.insertAccount event.id event) :=
    fun _ => insertAccount_contained.weaken fun _ k' => k.trans k'
  exact ⟨fun _ => ⟨fun _ => hinsert _, by simp⟩, fun _ =>
    timestampEvent_contained.weaken fun _ _ =>
      ⟨fun _ => hinsert { event with timestamp := _ }, by simp⟩⟩

omit [Hasher] in
theorem persistTransfers_contained {events : List Transfer} {results : List CreateTransferResult} :
    Meets Contained (fun sm' => Keeps (sm.orphan (events.zip results)) sm')
      (sm.persistTransfers events results timestamp) := by
  refine persistBatch_meets (fun index event result sm' k => ?_) Keeps.refl
  unfold persistTransferEvent
  simp only [Meets.ite_iff, Meets.bind_eq, Meets.pure_eq, meets_assert_eq]
  have hpersist : ∀ event : Transfer, Meets Contained
      (fun sm'' => Keeps (sm.orphan (events.zip results)) sm'')
      (sm'.persistTransfer event result.amountActual) :=
    fun _ => persistTransfer_contained.weaken fun _ k' => k.trans k'
  exact ⟨fun _ => ⟨fun _ => hpersist _, by simp⟩, fun _ =>
    timestampEvent_contained.weaken fun _ _ => ⟨fun _ => hpersist _, by simp⟩⟩

omit [Hasher] in
theorem expire_contained {id : U128} :
    Meets Contained (fun sm' => Keeps sm sm') (sm.expire timestamp id) := by
  unfold expire
  simp only [Meets.bind_eq, meets_assert_eq]
  refine ⟨fun _ => (expect_contained (by simp)).weaken fun p _ => ⟨fun _ => ?_, by simp⟩, by simp⟩
  refine (expect_contained (by simp)).weaken fun dr _ => ?_
  refine (expect_contained (by simp)).weaken fun cr _ => ?_
  refine ⟨fun _ => ⟨fun _ => ⟨fun _ => ⟨fun _ => ?_, by simp⟩, by simp⟩, by simp⟩, by simp⟩
  have hupdate : ∀ (sm : StateMachine) (updated : Bool) (account : Account),
      Meets Contained (fun sm' => Keeps sm sm') (sm.updateAccountIf updated account) := by
    intro sm updated account
    unfold updateAccountIf
    split
    · exact updateAccount_contained
    · exact Keeps.refl
  refine (hupdate _ _ _).weaken fun sm₁ k₁ => (hupdate _ _ _).weaken fun sm₂ k₂ => ?_
  refine updateTransferPendingStatus_contained.weaken fun sm₃ k₃ => ?_
  refine accountEvent_contained.weaken fun sm₄ k₄ => ?_
  have k := ((k₁.trans k₂).trans k₃).trans k₄
  exact ⟨k.1, k.2, k.3, k.4⟩

omit [Hasher] in
theorem expirePendingTransfers_contained :
    Meets Contained (fun sm' => Keeps sm sm') (sm.expirePendingTransfers timestamp) := by
  have hall : ∀ (due : List (Nat × Nat × U128)) (count index : Nat) (sm : StateMachine),
      Meets Contained (fun sm' => Keeps sm sm') (expireAll timestamp count index due sm) := by
    intro due
    induction due with
    | nil => exact fun _ _ _ => Keeps.refl
    | cons x due ih =>
      intro count index sm
      unfold expireAll
      simp only [Meets.bind_eq]
      refine timestampEvent_contained.weaken fun _ _ => expire_contained.weaken fun sm₁ k₁ => ?_
      exact (ih _ _ sm₁).weaken fun sm₂ k₂ => k₁.trans k₂
  unfold expirePendingTransfers
  simp only [Meets.bind_eq, meets_assert_eq]
  refine ⟨fun _ => ⟨fun _ => ?_, by simp⟩, by simp⟩
  refine (expiring_contained (by simp)).weaken fun due _ => (hall _ _ _ _).weaken fun sm₁ k₁ => ?_
  exact updatePulseNextTimestamp_contained.weaken fun sm₂ k₂ => k₁.trans k₂

omit [Hasher] in
theorem fill_contained {K V : Type} [DecidableEq K] [CacheMapSpec K V] {committed : HashMap K V}
    {keys : List K} {map : CacheMap K V} (hi : map.Idle)
    (hv : ∀ key value, committed.lookup key = some value →
      keyFromValue value = key ∧ !CacheMapSpec.tombstone value)
    (hs : map.Spare limits (values + keys.length) actions) :
    Meets Contained (fun map' => map'.Spare limits values actions) (fill committed keys map) := by
  induction keys generalizing map with
  | nil => exact hs
  | cons key keys ih =>
    rw [List.length_cons, ← Nat.add_assoc] at hs
    unfold fill
    cases hl : committed.lookup key with
    | none => exact ih hi (hs.mono (Nat.le_succ _) fun _ => Nat.le_refl _)
    | some value =>
      obtain ⟨_, ht⟩ := hv key value hl
      have hs : map.Spare limits (values + keys.length + 1) (actions + 1) :=
        hs.mono (Nat.le_refl _) fun ha => absurd (hi.inactive.symm.trans ha) Bool.false_ne_true
      dsimp only
      rw [Meets.bind_iff]
      exact ((hs.insert hi.sound ht).and_post (hi.upsert ht)).weaken
        fun map' h => ih h.2.1 h.1

-- The capacity of the caches.
def capacity : CacheMapOptions where
  cacheValueCountMax := 256
  stashValueCountMax := lsmCompactionOps * 32
  scopeValueCountMax := 32

-- No stash is full.
structure Sized (sm : StateMachine) : Prop where
  accounts : sm.accountsObjects.Spare capacity 0 0
  transfers : sm.transfersObjects.Spare capacity 0 0
  pendings : sm.transfersPendingObjects.Spare capacity 0 0

theorem Sized.keeps {sm' : StateMachine} (h : Sized sm) (k : Keeps sm sm') : Sized sm' where
  accounts := k.accountsObjects ▸ h.accounts
  transfers := k.transfersObjects ▸ h.transfers
  pendings := k.pendingObjects ▸ h.pendings

-- A batch for which the caches have the capacity: a chain of accounts has as many events as a scope
-- has actions, and one of transfers has half as many, and the stashes have room for whatever is
-- prefetched or created.
def Spacious (sm : StateMachine) : Call → Prop
  | .createAccounts events _ =>
    Chains (fun event : Account => event.flags.linked) capacity.scopeValueCountMax 0 events ∧
      sm.accountsObjects.stash.entries.length +
        (events.length + (prefetchCreateAccounts events).accountIds.length) <
          capacity.stashValueCountMax
  | .createTransfers events _ =>
    let keys := prefetchCreateTransfers events fun id => sm.transfers.lookup id
    Chains (fun event : Transfer => event.flags.linked) (capacity.scopeValueCountMax / 2) 0 events ∧
      sm.accountsObjects.stash.entries.length + keys.accountIds.length <
        capacity.stashValueCountMax ∧
      sm.transfersObjects.stash.entries.length + (events.length + keys.transferIds.length) <
        capacity.stashValueCountMax ∧
      sm.transfersPendingObjects.stash.entries.length +
        (events.length + keys.pendingTimestamps.length) < capacity.stashValueCountMax
  | .expirePendingTransfers _ => True

omit [Hasher] in
theorem spare_of_idle {K V : Type} [DecidableEq K] [CacheMapSpec K V] {map : CacheMap K V}
    (h : map.Idle) (hs : map.Spare limits 0 0)
    (hlt : map.stash.entries.length + values < limits.stashValueCountMax) :
    map.Spare limits values actions :=
  ⟨hs.options, hlt, fun ha => absurd (h.inactive.symm.trans ha) nofun,
    fun ha => absurd (h.inactive.symm.trans ha) nofun⟩

theorem createAccounts_contained {events : List Account} (h : Sound sm) (hs : Sized sm)
    (ht : timestamp ≤ TimestampRange.timestampMax)
    (hc : Spacious sm (.createAccounts events timestamp)) :
    Meets Contained (fun r => Sized r.2) (sm.createAccounts events timestamp) := by
  have ⟨hchains, hroom⟩ := hc
  have hspare : sm.accountsObjects.Spare capacity
      (events.length + (prefetchCreateAccounts events).accountIds.length) 0 :=
    spare_of_idle h.accountsIdle hs.accounts hroom
  unfold StateMachine.createAccounts createAccountsPrefetch
  simp only [Meets.bind_eq, Meets.pure_eq, meets_assert_eq]
  refine ⟨fun _ => ?_, by simp⟩
  refine ((fill_contained h.accountsIdle h.keyed_accounts hspare).and_post h.fill_accounts).weaken
    fun objects ⟨hs₁, hf⟩ => ?_
  unfold executeCreateAccounts
  let batch := accountsBatch events timestamp sm
  let state : AccountsState := ⟨objects, sm.accountsTimestampMax⟩
  let law := @AccountsBatch.law _ batch ht
  have hidle : law.Idle state := hf.idle
  have hprovides := @AccountsBatch.provides _ capacity batch ht
  have hs₂ : state.accountsObjects.Spare capacity (0 + events.length) 0 :=
    (Nat.zero_add events.length).symm ▸ hs₁
  have hrun := hprovides.orchestrate (fun _ h => h) hidle hs₂ hchains
  refine (hrun.and_post (law.orchestrate_meets (R := fun _ _ => True) hidle (fun _ h => h)
    fun _ _ _ _ _ _ => True.intro)).weaken fun loop ⟨⟨k, hk⟩, hi, _⟩ => ?_
  have hsized : Sized { sm with accountsObjects := loop.state.accountsObjects } :=
    ⟨hk.mono (Nat.le_refl _) fun _ => Nat.zero_le _, hs.transfers, hs.pendings⟩
  exact persistAccounts_contained.weaken fun sm' k' => hsized.keeps k'

theorem createTransfers_contained {events : List Transfer} (h : Sound sm) (hs : Sized sm)
    (ht : timestamp ≤ TimestampRange.timestampMax)
    (hc : Spacious sm (.createTransfers events timestamp)) :
    Meets Contained (fun r => Sized r.2) (sm.createTransfers events timestamp) := by
  obtain ⟨hchains, hroom₁, hroom₂, hroom₃⟩ := hc
  unfold StateMachine.createTransfers
  simp only [Meets.bind_eq, Meets.pure_eq, meets_assert_eq]
  refine ⟨fun _ => ?_, by simp⟩
  have hprefetch : Meets Contained
      (fun r => r.2.accountsObjects.Spare capacity 0 0 ∧
        r.2.transfersObjects.Spare capacity events.length 0 ∧
        r.2.transfersPendingObjects.Spare capacity events.length 0)
      (sm.createTransfersPrefetch
        (prefetchCreateTransfers events fun id => sm.transfers.lookup id)) := by
    have hs₁ : sm.accountsObjects.Spare capacity (0 + _) 0 :=
      spare_of_idle h.accountsIdle hs.accounts (by rw [Nat.zero_add]; exact hroom₁)
    have hs₂ : sm.transfersObjects.Spare capacity (events.length + _) 0 :=
      spare_of_idle h.transfersIdle hs.transfers hroom₂
    have hs₃ : sm.transfersPendingObjects.Spare capacity (events.length + _) 0 :=
      spare_of_idle h.pendingsIdle hs.pendings hroom₃
    unfold StateMachine.createTransfersPrefetch
    simp only [Meets.bind_eq, Meets.pure_eq]
    refine (fill_contained h.accountsIdle h.keyed_accounts hs₁).weaken fun _ h₁ => ?_
    refine (fill_contained h.transfersIdle h.keyed_transfers hs₂).weaken fun _ h₂ => ?_
    exact (fill_contained h.pendingsIdle h.keyed_pendings hs₃).weaken fun _ h₃ => ⟨h₁, h₂, h₃⟩
  refine (hprefetch.and_post h.createTransfersPrefetch).weaken
    fun result hresult => ?_
  obtain ⟨accountTimestamps, sm₁⟩ := result
  obtain ⟨⟨hs₁, hs₂, hs₃⟩, hp⟩ := hresult
  have hlookup : sm₁.transfers = sm.transfers := congrArg Ledger.transfers hp.ledger
  unfold executeCreateTransfers
  dsimp only at hs₁ hs₂ hs₃ ⊢
  rw [← hlookup]
  let batch := transfersBatch events timestamp accountTimestamps sm₁
  let law := @TransfersBatch.law _ batch ht
  have hidle : law.Idle (transfersState sm₁) :=
    ⟨hp.accounts.idle, hp.transfers.idle, hp.pendings.idle⟩
  have hprovides := @TransfersBatch.provides _ capacity batch ht
  have hspare : (transfersState sm₁).Spare capacity (0 + events.length) 0 :=
    (Nat.zero_add events.length).symm ▸ ⟨hs₁, hs₂, hs₃⟩
  have hrun := hprovides.orchestrate (fun _ h => h) hidle hspare hchains
  refine (hrun.and_post (law.orchestrate_meets (R := fun _ _ => True) hidle (fun _ h => h)
    fun _ _ _ _ _ _ => True.intro)).weaken fun loop hloop => ?_
  obtain ⟨⟨k, hk⟩, hi, _⟩ := hloop
  have hk := hk.mono (Nat.le_refl _) (Nat.zero_le _)
  have hsized : Sized (StateMachine.orphan { sm₁ with
      accountsObjects := loop.state.accountsObjects
      transfersObjects := loop.state.transfersObjects
      transfersPendingObjects := loop.state.transfersPendingObjects }
      (events.zip loop.results)) := ⟨hk.accounts, hk.transfers, hk.pendings⟩
  exact persistTransfers_contained.weaken fun sm' k' => hsized.keeps k'

theorem step_contained {call : Call} (h : Sound sm) (hs : Sized sm) (ht : Timely sm call)
    (hc : Spacious sm call) : Meets Contained Sized (machine.step sm call) := by
  have ht : TimestampRange.valid call.timestamp := ht
  cases call with
  | createAccounts events timestamp =>
    simp only [machine, Meets.bind_eq, Meets.pure_eq]
    exact createAccounts_contained h hs ht.2 hc
  | createTransfers events timestamp =>
    simp only [machine, Meets.bind_eq, Meets.pure_eq]
    exact createTransfers_contained h hs ht.2 hc
  | expirePendingTransfers timestamp =>
    exact expirePendingTransfers_contained.weaken fun _ k => hs.keeps k

theorem compact_contained {op : Nat} (hs : Sized sm) : Meets Contained Sized (sm.compact op) := by
  unfold compact
  simp only [Meets.ite_iff, Meets.bind_eq, Meets.pure_eq]
  refine ⟨fun _ => ?_, fun _ => hs⟩
  refine hs.accounts.compact.weaken fun _ h₁ => hs.transfers.compact.weaken fun _ h₂ => ?_
  exact hs.pendings.compact.weaken fun _ h₃ => ⟨h₁, h₂, h₃⟩

omit [Hasher] in
theorem compacted {K V : Type} [DecidableEq K] [CacheMapSpec K V] {map : CacheMap K V}
    (h : map.Idle) :
    Meets (fun _ => True)
      (fun map' : CacheMap K V => map'.Idle ∧ ∀ key, map.view key = none → map'.view key = none)
      map.compact := by
  unfold CacheMap.compact
  simp only [Meets.bind_eq, Meets.pure_eq, partial_assert]
  intro hi _ _
  refine ⟨⟨⟨h.sound.coherent, h.sound.cached, ?_, ?_⟩, h.inactive⟩, fun key hn => ?_⟩
  · intro key value hl
    simp at hl
  · simp
  · rw [h.sound.view_eq] at hn
    show (map.cached key <|> _) = none
    cases hc : map.cached key with
    | none         => simp [CacheMap.stashGet]
    | some value => simp [hc] at hn

theorem Sound.compact {op : Nat} (h : Sound sm) :
    Meets (fun _ => True) Sound (sm.compact op) := by
  unfold StateMachine.compact
  simp only [Meets.ite_iff, Meets.bind_eq, Meets.pure_eq]
  refine ⟨fun _ => ?_, fun _ => h⟩
  refine (compacted h.accountsIdle).weaken fun _ ⟨hi₁, hv₁⟩ => ?_
  refine (compacted h.transfersIdle).weaken fun _ ⟨hi₂, hv₂⟩ => ?_
  refine (compacted h.pendingsIdle).weaken fun _ ⟨hi₃, hv₃⟩ => ?_
  exact {
    accountsIdle := hi₁
    transfersIdle := hi₂
    pendingsIdle := hi₃
    balanced := h.balanced
    valid := h.valid
    accountsWithin := fun id hn => hv₁ id (h.accountsWithin id hn)
    transfersWithin := fun id hn => hv₂ id (h.transfersWithin id hn)
    pendingsWithin := fun id hn => hv₃ id (h.pendingsWithin id hn)
  }

-- An op whose batch is one that the caches have the capacity for.
def Accommodated (s : StateMachine × Nat) (call : Option Call) : Prop :=
  ∀ c ∈ call, Timely s.1 c ∧ Spacious s.1 c

theorem committing_contained {s : StateMachine × Nat} {call : Option Call} (h : Sound s.1)
    (hs : Sized s.1) (hg : Accommodated s call) :
    Meets Contained (fun s' => Sound s'.1 ∧ Sized s'.1) (committing.step s call) := by
  have hcall : Meets Contained (fun sm => Sound sm ∧ Sized sm)
      (call.elim (pure s.1) (machine.step s.1)) := by
    cases call with
    | none => exact ⟨h, hs⟩
    | some call =>
      have ⟨ht, hc⟩ := hg call rfl
      refine ((step_contained h hs ht hc).and_post (Meets.iff_forall.mpr fun sm hstep =>
        h.step ht hstep)).weaken fun _ h => h.symm
  simp only [committing, Meets.bind_eq, Meets.pure_eq]
  refine hcall.weaken fun sm ⟨h, hs⟩ => ?_
  exact ((compact_contained hs).and_post h.compact).weaken fun _ h => h.symm

-- The capacity of the caches suffices for every op.
theorem capacity_suffices {s : StateMachine × Nat} {call : Option Call}
    (h : committing.Reachable Accommodated s) (hg : Accommodated s call) :
    Meets Contained (fun _ => True) (committing.step s call) := by
  have ⟨hsound, hsized⟩ : Sound s.1 ∧ Sized s.1 := by
    refine h.invariant (p := fun s => Sound s.1 ∧ Sized s.1) (fun s hi => ?_)
      fun s call s' ⟨h, hs⟩ hg hstep => (committing_contained h hs hg).post hstep
    have hi : s = (default, 0) := hi
    rw [hi]
    exact ⟨sound_default, .new (by decide), .new (by decide), .new (by decide)⟩
  exact (committing_contained hsound hsized hg).weaken fun _ _ => trivial

end StateMachine

end

namespace StateMachine.Runs

open Accounting.Runs

attribute [local instance] identityHasher

instance {sm : StateMachine} {call : Call} : Decidable (Spacious sm call) :=
  match call with
  | .createAccounts _ _         => inferInstanceAs (Decidable (_ ∧ _))
  | .createTransfers _ _        => inferInstanceAs (Decidable (_ ∧ _ ∧ _ ∧ _))
  | .expirePendingTransfers _ => inferInstanceAs (Decidable True)

instance {s : StateMachine × Nat} {call : Option Call} : Decidable (Accommodated s call) :=
  match call with
  | none   => .isTrue nofun
  | some c => decidable_of_iff (Timely s.1 c ∧ Spacious s.1 c)
    ⟨fun h _ hc => Option.some.inj hc ▸ h, fun h => h c rfl⟩

theorem capacity_suffices_of_transfers : ∃ s, committing.Reachable Accommodated s ∧
    s.1.accounts.entries.length = 2 ∧
    Meets Contained (fun _ => True) (committing.step s (some transfers)) := by
  have ⟨s, hr, hlen, hg⟩ := (Machine.Reachable.init rfl).leads (show committing.Leads Accommodated
    (fun s => s.1.accounts.entries.length = 2 ∧ Accommodated s (some transfers)) [some accounts]
    (default, 0) by decide +kernel)
  exact ⟨s, hr, hlen, capacity_suffices hr hg⟩

-- A batch that fits into a message.
def Whole : Call → Prop
  | .createAccounts events _  => events.length ≤ messageBodySizeMax / 128
  | .createTransfers events _ => events.length ≤ messageBodySizeMax / 128
  | .expirePendingTransfers _ => True

instance {call : Call} : Decidable (Whole call) :=
  match call with
  | .createAccounts events _  => inferInstanceAs (Decidable (events.length ≤ _))
  | .createTransfers events _ => inferInstanceAs (Decidable (events.length ≤ _))
  | .expirePendingTransfers _ => inferInstanceAs (Decidable True)

-- A chain of 33 accounts.
def long : Call :=
  .createAccounts
    ((List.range 32).map (fun i => account (i + 1) 1 1 0) ++ [account 33 0 1 0]) 100

-- A chain of accounts that is too long for a scope.
theorem not_capacity_suffices : ¬∀ (_ : Hasher) (s : StateMachine × Nat) (call : Option Call),
    committing.Reachable (fun s call => ∀ c ∈ call, Timely s.1 c ∧ Whole c) s →
    (∀ c ∈ call, Timely s.1 c ∧ Whole c) →
    Meets Contained (fun _ => True) (committing.step s call) := by
  intro h
  have ⟨call, hguard, hfails⟩ : ∃ call : Option Call,
      (∀ c ∈ call, Timely (default : StateMachine) c ∧ Whole c) ∧
      Meets (fun fault => fault = .panic .general "scope rollback log overflow")
        (fun _ => False) (committing.step (default, 0) call) :=
    ⟨some long, fun _ hc => Option.some.inj hc ▸ (by decide +kernel), by decide +kernel⟩
  have hlong := h identityHasher (default, 0) call (.init rfl) hguard
  cases hstep : committing.step (default, 0) call with
  | ok s        => exact hfails.post hstep
  | error fault => exact hlong.fault hstep (.inl (hfails.fault hstep))

end StateMachine.Runs

end TigerBeetle.Accounting
