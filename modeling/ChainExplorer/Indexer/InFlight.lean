import ChainExplorer.Indexer.KnownTokens

/-!
# Bundles in flight

What is said of every bundle a fetch brings holds of every bundle on its way, and of all that is
ever committed: the loops cut, queue and drop bundles, and make none.

* `FetchStep.Keeps P`, `IndexerState.Keeps P`: what a step brings satisfies `P`.
* `IndexerState.InFlight P`: every bundle on its way does.
* **`indexer_commits`**: a property of the database that commits of such bundles keep holds in every
  state reached.
-/

namespace ChainExplorer

/-! ## One fetch -/

def FetchTask.InFlight (P : BlockBundle → Prop) : FetchTask → Prop
  | .asked _ => True
  | .assembled bundles _ | .done bundles => ∀ bundle ∈ bundles, P bundle

structure RangeFetch.InFlight (P : BlockBundle → Prop) (f : RangeFetch) : Prop where
  tasks : ∀ task ∈ f.tasks, task.InFlight P
  out : ∀ bundle ∈ f.out, P bundle

section Fetch

variable {P : BlockBundle → Prop} {f f' : RangeFetch}

theorem RangeFetch.inFlight_first (start stop : ℕ) : (RangeFetch.first start stop).InFlight P where
  tasks _ htask := absurd htask List.not_mem_nil
  out _ hmem := absurd hmem List.not_mem_nil

theorem RangeFetch.InFlight.set (h : f.InFlight P) (i : ℕ) {task : FetchTask}
    (htask : task.InFlight P) : RangeFetch.InFlight P { f with tasks := f.tasks.set i task } where
  tasks t ht := by
    rcases List.mem_or_eq_of_mem_set ht with hold | rfl
    · exact h.tasks t hold
    · exact htask
  out := h.out

variable [Keccak] [Codec]

/-- **What a step of a fetch brings satisfies `P`**: the blocks of a chunk as they are assembled, and
those of a chunk that satisfies it with the metadata of their tokens. -/
def FetchStep.Keeps (P : BlockBundle → Prop) (f : RangeFetch) : FetchStep → Prop
  | .rawBlocks i node => ∀ chunk raws bundles, f.tasks[i]? = some (.asked chunk) →
    (fetchRawBlocks chunk.1 chunk.2 node []).1 = .ok raws → assemble raws = some bundles →
      ∀ bundle ∈ bundles, P bundle
  | .describe i ch node => ∀ bundles wanted bundles' new,
    f.tasks[i]? = some (.assembled bundles wanted) → (∀ bundle ∈ bundles, P bundle) →
      (describeTokens ch wanted bundles node []).1 = .ok (bundles', new) →
        ∀ bundle ∈ bundles', P bundle
  | _ => True

theorem RangeFetch.Step.inFlight {known known' : Finset String} {step : FetchStep}
    (h : f.Step known step f' known') (hf : f.InFlight P) (hstep : step.Keeps P f) :
    f'.InFlight P := by
  cases h with
  | spawn hchunks =>
    refine ⟨fun task htask => ?_, hf.out⟩
    rcases List.mem_append.mp htask with hold | hnew
    · exact hf.tasks task hold
    · rw [List.mem_singleton.mp hnew]
      trivial
  | failed htask => exact hf.set _ fun bundle hmem => absurd hmem List.not_mem_nil
  | plain htask hraws hbundles hwanted => exact hf.set _ (hstep _ _ _ htask hraws hbundles)
  | assembled htask hraws hbundles => exact hf.set _ (hstep _ _ _ htask hraws hbundles)
  | described htask hrun =>
    exact hf.set _ (hstep _ _ _ _ htask (hf.tasks _ (List.mem_of_getElem? htask)) hrun)
  | @joined i bundles htask =>
    have hdone : (FetchTask.done bundles).InFlight P := hf.tasks _ (List.mem_of_getElem? htask)
    refine ⟨fun task hmem => hf.tasks task (List.mem_of_mem_eraseIdx hmem), fun bundle hmem => ?_⟩
    rcases List.mem_append.mp hmem with hold | hnew
    · exact hf.out bundle hold
    · exact hdone bundle hnew

end Fetch

/-! ## Every loop -/

def ForwardPc.InFlight (P : BlockBundle → Prop) : ForwardPc → Prop
  | .fetching _ _ f => f.InFlight P
  | .sending _ _ rest => ∀ bundle ∈ rest, P bundle
  | _ => True

def DescentPc.InFlight (P : BlockBundle → Prop) : DescentPc → Prop
  | .fetching _ _ f => f.InFlight P
  | .sending _ rest => ∀ bundle ∈ rest, P bundle
  | _ => True

namespace IndexerState

/-- **Every bundle on its way satisfies `P`.** -/
structure InFlight (P : BlockBundle → Prop) (s : IndexerState) : Prop where
  forward : s.forward.InFlight P
  descent : s.descent.InFlight P
  channel : ∀ bundle ∈ s.channel, P bundle
  batch : ∀ bundle ∈ s.batch, P bundle

section Keccak

variable [Keccak]

theorem inFlight_boot {P : BlockBundle → Prop} (db : Database) : (boot db).InFlight P where
  forward := trivial
  descent := trivial
  channel _ hmem := absurd hmem List.not_mem_nil
  batch _ hmem := absurd hmem List.not_mem_nil

variable [Codec]

/-- What a step of either loop brings satisfies `P`. -/
def Keeps (P : BlockBundle → Prop) (s : IndexerState) : IndexerAction → Prop
  | .forwardFetch step => ∀ sent head f, s.forward = .fetching sent head f → step.Keeps P f
  | .descentFetch step => ∀ frontier target f, s.descent = .fetching frontier target f →
    step.Keeps P f
  | _ => True

end Keccak

end IndexerState

section Keccak

variable [Keccak] [Codec] {P : BlockBundle → Prop}

theorem IndexerState.Step.inFlight {cfg : IndexerConfig} {s s' : IndexerState} {a : IndexerAction}
    (h : s.Step cfg a s') (hs : s.InFlight P) (hstep : s.Keeps P a) : s'.InFlight P := by
  cases h with
  | announce hmax => exact { hs with }
  | forwardBoot hpc => exact { hs with forward := trivial }
  | receiveFirst hpc hheads => exact { hs with forward := trivial }
  | receive hpc hheads hseed => exact { hs with forward := trivial }
  | seededAbove hpc hlatest => exact { hs with forward := trivial }
  | seeded hpc hlatest hsent hlt => exact { hs with forward := trivial }
  | unseeded hpc hlatest => exact { hs with forward := trivial }
  | seedWait hpc hlatest => exact hs
  | catchUp hpc hlt => exact { hs with forward := RangeFetch.inFlight_first _ _ }
  | caughtUp hpc hle => exact { hs with forward := trivial }
  | forwardFetch hpc hexec =>
    have hf := hs.forward
    rw [hpc] at hf
    exact { hs with forward := (RangeFetch.step_of_exec hexec).inFlight hf (hstep _ _ _ hpc) }
  | forwardNothing hpc hover hnil => exact { hs with forward := trivial }
  | @forwardFetched sent head f last hpc hover hlast =>
    have hf := hs.forward
    rw [hpc] at hf
    have hcut := (contiguousFrom_sublist f.bundles (sent + 1)).subset
    exact { hs with forward := fun bundle hmem => hf.out bundle (RangeFetch.mem_bundles.mp (hcut hmem)) }
  | forwardSend hpc =>
    have hrest := hs.forward
    rw [hpc] at hrest
    obtain ⟨hfirst, hrest⟩ := List.forall_mem_cons.mp hrest
    exact { hs with
      forward := hrest
      channel := List.forall_mem_append.mpr ⟨hs.channel, List.forall_mem_singleton.mpr hfirst⟩ }
  | forwardSentAll hpc => exact { hs with forward := trivial }
  | descentBoot hpc => exact { hs with descent := trivial }
  | yield hpc => exact hs
  | pickBelow hpc hmin => exact { hs with descent := RangeFetch.inFlight_first _ _ }
  | pickNone hpc hmin => exact { hs with descent := trivial }
  | pickHead hpc hlag hhead => exact { hs with descent := RangeFetch.inFlight_first _ _ }
  | readLowest hpc => exact { hs with descent := trivial }
  | descentFetch hpc hexec =>
    have hf := hs.descent
    rw [hpc] at hf
    exact { hs with descent := (RangeFetch.step_of_exec hexec).inFlight hf (hstep _ _ _ hpc) }
  | descentNothing hpc hover => exact { hs with descent := trivial }
  | @descentFetched frontier target f lowest hpc hover hhead =>
    have hf := hs.descent
    rw [hpc] at hf
    have hcut := (contiguousDownTo_sublist f.bundles (wrapU64 (target - 1))).subset
    refine { hs with descent := fun bundle hmem => ?_ }
    exact hf.out bundle (RangeFetch.mem_bundles.mp (hcut (List.mem_reverse.mp hmem)))
  | descentSend hpc =>
    have hrest := hs.descent
    rw [hpc] at hrest
    obtain ⟨hfirst, hrest⟩ := List.forall_mem_cons.mp hrest
    exact { hs with
      descent := hrest
      channel := List.forall_mem_append.mpr ⟨hs.channel, List.forall_mem_singleton.mpr hfirst⟩ }
  | descentSentAll hpc => exact { hs with descent := trivial }
  | writerTake hbatch =>
    exact { hs with
      batch := fun bundle hmem => hs.channel bundle (List.mem_of_mem_take hmem)
      channel := fun bundle hmem => hs.channel bundle (List.mem_of_mem_drop hmem) }
  | writerFails => exact hs
  | writerSaves hsave => exact { hs with batch := fun bundle hmem => absurd hmem List.not_mem_nil }
  | crash => exact inFlight_boot s.db

theorem IndexerState.Step.db_cases {cfg : IndexerConfig} {s s' : IndexerState} {a : IndexerAction}
    (h : s.Step cfg a s') :
    s'.db = s.db ∨ ∃ ch, s.db.saveBlockBundles ch s.batch = .ok s'.db := by
  cases h with
  | writerSaves hsave => exact .inr ⟨_, hsave⟩
  | _ => exact .inl rfl

/-- **What every commit keeps holds in every state reached**: if all that is fetched satisfies `P`,
and a commit of bundles that do keeps `Q`, the database always satisfies `Q`. -/
theorem indexer_commits {cfg : IndexerConfig} {db : Database} {Q : Database → Prop} (hdb : Q db)
    (hsave : ∀ (d d' : Database) (ch : ℕ → Choices) (bundles : List BlockBundle), Q d →
      (∀ bundle ∈ bundles, P bundle) → d.saveBlockBundles ch bundles = .ok d' → Q d')
    {s : IndexerState} (h : (indexer cfg db).ReachableUnder (IndexerState.Keeps P) s) :
    s.InFlight P ∧ Q s.db := by
  refine h.invariant (I := fun s => s.InFlight P ∧ Q s.db) ?_ ?_
  · rintro s rfl
    exact ⟨IndexerState.inFlight_boot db, hdb⟩
  · intro s a s' ⟨hs, hq⟩ hkeeps hexec
    have hstep := IndexerState.step_of_exec hexec
    refine ⟨hstep.inFlight hs hkeeps, ?_⟩
    rcases hstep.db_cases with hsame | ⟨ch, hcommit⟩
    · rwa [hsame]
    · exact hsave _ _ ch s.batch hq hs.batch hcommit

end Keccak

end ChainExplorer
