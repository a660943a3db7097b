import Answr.Answers
set_option autoImplicit false

/-! The end of a fetch: what it hands over when it calls its handler, and for which
answers it does. -/

namespace Answr
open LeafTree Countdown Steps

section Waiting

def RequestFetch.waiting : RequestFetch → Bool
  | .reading _ => true
  | .malformed _ => false
  | .wellFormed _ body => body.items.subs.any (!·.answered) || body.elderly.any (!·.answered)

def ZoneFetch.waiting : ZoneFetch → Bool
  | .reading _ => true
  | .absent _ => false
  | .present _ requests => requests.subs.any RequestFetch.waiting

def Fetch.waiting : Fetch → Bool
  | .reading _ => true
  | .refused => false
  | .fetching zones => zones.subs.any ZoneFetch.waiting

def RequestFetch.counters : RequestFetch → List Int
  | .wellFormed _ body => [body.items.counter]
  | _ => []

def ZoneFetch.counters : ZoneFetch → List Int
  | .present _ requests => requests.counter :: requests.subs.flatMap RequestFetch.counters
  | _ => []

def Fetch.counters : Fetch → List Int
  | .fetching zones => zones.counter :: zones.subs.flatMap ZoneFetch.counters
  | _ => []

variable {zh : Bool} {A : Answers} {zoneID id zoneid uid : String} {f : RequestFetch}
  {z : ZoneFetch} {fetch : Fetch}

theorem RequestFetch.Tracks.settled (h : f.Tracks zh A zoneID id) (hf : f.fired = true) :
    f.waiting = false := by
  cases f with
  | reading id' => cases hf
  | malformed id' => rfl
  | wellFormed id' body =>
    obtain ⟨-,hbody⟩ := h
    rcases hbody.elderly with ⟨-,hnone⟩ | ⟨hended,-,read,hone,-⟩
    · simp [RequestFetch.fired,hnone] at hf
    · have hread : read.answered = true := by simpa [RequestFetch.fired,hone] using hf
      have hitems : body.items.subs.any (!·.answered) = false :=
        hbody.items.settled_of_ended (fun _ _ _ ha => by simp [ha]) hended
      simp [RequestFetch.waiting,hitems,hone,hread]

theorem ZoneFetch.Tracks.settled (h : z.Tracks zh A zoneid) (hf : z.fired = true) :
    z.waiting = false := by
  cases z with
  | reading zoneid' => cases hf
  | absent zoneid' => rfl
  | present zoneid' requests =>
    exact h.2.2.2.settled_of_ended (fun _ _ ⟨_,_,htracks⟩ hfired => htracks.settled hfired) hf

theorem Fetch.Tracks.settled (h : fetch.Tracks zh A uid) (hf : fetch.fired = true) :
    fetch.waiting = false := by
  cases fetch with
  | reading uid' => cases hf
  | refused => rfl
  | fetching j =>
    obtain ⟨zones,-,-,htracks⟩ := h
    exact htracks.settled_of_ended (fun _ _ ⟨_,_,hz⟩ hfired => hz.settled hfired) hf

theorem RequestFetch.Tracks.nonneg (h : f.Tracks zh A zoneID id) : ∀ n ∈ f.counters, 0 ≤ n := by
  cases f with
  | wellFormed id' body =>
    intro n hn
    obtain rfl := List.mem_singleton.mp hn
    exact h.2.items.counting.nonneg
  | _ => simp [RequestFetch.counters]

theorem nonneg_join {ι ρ : Type} {fired : ι → Bool} {Ok : Nat → ι → Prop} {R : ρ → ρ → Prop}
    {expect : Nat → Option ρ} {n : Nat} {j : Join ι ρ} {counters : ι → List Int}
    (h : j.Tracking fired Ok R expect n) (hsub : ∀ i s, Ok i s → ∀ c ∈ counters s, 0 ≤ c) :
    ∀ c ∈ j.counter :: j.subs.flatMap counters, 0 ≤ c := by
  intro c hc
  rcases List.mem_cons.mp hc with rfl | hc
  · exact h.counting.nonneg
  · obtain ⟨s,hs,hc⟩ := List.mem_flatMap.mp hc
    obtain ⟨i,hi⟩ := List.getElem?_of_mem hs
    exact hsub i s (h.subs i s hi) c hc

theorem ZoneFetch.Tracks.nonneg (h : z.Tracks zh A zoneid) : ∀ n ∈ z.counters, 0 ≤ n := by
  cases z with
  | present zoneid' requests =>
    exact nonneg_join h.2.2.2 fun _ _ ⟨_,_,htracks⟩ => htracks.nonneg
  | _ => simp [ZoneFetch.counters]

theorem Fetch.Tracks.nonneg (h : fetch.Tracks zh A uid) : ∀ n ∈ fetch.counters, 0 ≤ n := by
  cases fetch with
  | fetching j =>
    obtain ⟨zones,-,-,htracks⟩ := h
    exact nonneg_join htracks fun _ _ ⟨_,_,hz⟩ => hz.nonneg
  | _ => simp [Fetch.counters]

end Waiting

section Fine

/-- The handler of the request is called: its node is malformed, or it has content, `child`
accepts its items and its sender, and the cast of every quantity that is wanted is
possible. -/
def RequestFine (zh : Bool) (A : Answers) (zoneID id : String) : Prop :=
  requestFields zoneID id (A []) = none ∨ contentReads zoneID id (A []) ≠ [] ∧
    (∀ req, requestFields zoneID id (A []) = some req → ValidPart req.senderID) ∧
    (∀ read ∈ contentReads zoneID id (A []), ValidPart read.itemID) ∧
    ∀ (i : Nat) (read : ItemRead), (contentReads zoneID id (A []))[i]? = some read →
      read.Fits zh (A [0,i])

/-- The handler of the zone is called: its node is missing, or it has children that `child`
accepts and all their handlers are called. -/
def ZoneFine (zh : Bool) (A : Answers) (zoneid : String) : Prop :=
  below (zoneRef zoneid) (A []) = [] ∨ keys (zoneRef zoneid) (A []) ≠ [] ∧
    (∀ id ∈ keys (zoneRef zoneid) (A []), ValidPart id) ∧
    ∀ i id, (keys (zoneRef zoneid) (A []))[i]? = some id → RequestFine zh (A.below i) zoneid id

/-- The answers of a volunteer: there is an `AssignedZones` string, `child` accepts its
pieces and the handlers of all zones are called. -/
def ZonesFine (zh : Bool) (A : Answers) (uid : String) : Prop :=
  ∃ zones, retrieveZones uid (A []) = some zones ∧ (∀ zone ∈ zones, ValidPart zone) ∧
    ∀ i zoneid, zones[i]? = some zoneid → ZoneFine zh (A.below i) zoneid

/-- `onComplete` is called. -/
def FetchFine (zh : Bool) (A : Answers) (uid : String) : Prop := ValidPart uid ∧ ZonesFine zh A uid

variable {zh : Bool} {A : Answers} {zoneID id zoneid uid : String} {f : RequestFetch}
  {z : ZoneFetch} {fetch : Fetch} {m : Reply} {e : Fault}

theorem forall_lt_iff {τ : Type} {ts : List τ} {P : Nat → τ → Prop} :
    (∀ i < ts.length, ∀ t, ts[i]? = some t → P i t) ↔ ∀ i t, ts[i]? = some t → P i t :=
  ⟨fun h i t ht => h i (List.getElem?_eq_some_iff.mp ht).1 t ht,fun h i _ t ht => h i t ht⟩

theorem retrieveZones_ne_nil {db : Database} {zones : List String}
    (h : retrieveZones uid db = some zones) : zones ≠ [] := by
  obtain ⟨s,-,rfl⟩ := Option.map_eq_some_iff.mp h
  simp [components]

theorem RequestFetch.Tracks.fired_iff (h : f.Tracks zh A zoneID id) (hw : f.waiting = false) :
    f.fired = true ↔ RequestFine zh A zoneID id := by
  cases f with
  | reading id' => cases hw
  | malformed id' => exact ⟨fun _ => Or.inl h.2,fun _ => rfl⟩
  | wellFormed id' body =>
    obtain ⟨-,hbody⟩ := h
    simp only [RequestFetch.waiting,Bool.or_eq_false_iff] at hw
    obtain ⟨hitems,helderly⟩ := hw
    have hended : body.items.ended ItemRead.answered = true ↔
        (contentReads zoneID id (A [])).length ≠ 0 ∧
        ∀ i < (contentReads zoneID id (A [])).length, ∀ read : ItemRead,
          (contentReads zoneID id (A []))[i]? = some read → read.Fits zh (A [0,i]) := by
      refine hbody.items.ended_iff_fine ?_ hitems
      rintro i s ⟨read,hread,htracks⟩ hs
      have hanswered : s.answered = true := by simpa using hs
      refine ⟨fun _ read' hread' => ?_,fun _ => hanswered⟩
      obtain rfl := Option.some.inj (hread'.symm.trans hread)
      exact htracks.fits hanswered
    rw [forall_lt_iff,ne_eq,List.length_eq_zero_iff] at hended
    have hfine : RequestFine zh A zoneID id ↔
        ValidPart body.fields.senderID ∧ body.items.ended ItemRead.answered = true := by
      rw [hended,RequestFine,hbody.fields]
      simp only [reduceCtorEq,false_or,Option.some.injEq,forall_eq']
      exact ⟨fun h => ⟨h.2.1,h.1,h.2.2.2⟩,fun h => ⟨h.2.1,h.1,hbody.valid,h.2.2⟩⟩
    rw [hfine]
    rcases hbody.elderly with ⟨hopen,hnone⟩ | ⟨hclosed,hvalid,read,hone,-⟩
    · simp [RequestFetch.fired,hnone,hopen]
    · have hread : read.answered = true := by simpa [hone] using helderly
      simp [RequestFetch.fired,hone,hread,hclosed,hvalid]

theorem ZoneFetch.Tracks.fired_iff (h : z.Tracks zh A zoneid) (hw : z.waiting = false) :
    z.fired = true ↔ ZoneFine zh A zoneid := by
  cases z with
  | reading zoneid' => cases hw
  | absent zoneid' => exact ⟨fun _ => .inl h.2,fun _ => rfl⟩
  | present zoneid' requests =>
    obtain ⟨-,hsome,hvalid,htracks⟩ := h
    have hended : requests.ended RequestFetch.fired = true ↔
        (keys (zoneRef zoneid) (A [])).length ≠ 0 ∧
        ∀ i < (keys (zoneRef zoneid) (A [])).length, ∀ id,
          (keys (zoneRef zoneid) (A []))[i]? = some id →
          RequestFine zh (A.below i) zoneid id := by
      refine htracks.ended_iff_fine ?_ hw
      rintro i s ⟨id,hid,hs⟩ hset
      rw [hs.fired_iff hset]
      refine ⟨fun hfine id' hid' => ?_,fun hfine => hfine id hid⟩
      obtain rfl := Option.some.inj (hid'.symm.trans hid)
      exact hfine
    rw [forall_lt_iff,ne_eq,List.length_eq_zero_iff] at hended
    simp only [ZoneFetch.fired,hended,ZoneFine,hsome,false_or,ne_eq]
    exact ⟨fun h => ⟨h.1,fun id hid => (hvalid id hid).2,h.2⟩,fun h => ⟨h.1,h.2.2⟩⟩

theorem Fetch.Tracks.fired_iff (h : fetch.Tracks zh A uid) (hw : fetch.waiting = false) :
    fetch.fired = true ↔ ZonesFine zh A uid := by
  cases fetch with
  | reading uid' => cases hw
  | refused =>
    have hnone : retrieveZones uid (A []) = none := h
    simp [Fetch.fired,ZonesFine,hnone]
  | fetching j =>
    obtain ⟨zones,hzones,hvalid,htracks⟩ := h
    have hended : j.ended ZoneFetch.fired = true ↔ zones.length ≠ 0 ∧
        ∀ i < zones.length, ∀ zoneid, zones[i]? = some zoneid →
          ZoneFine zh (A.below i) zoneid := by
      refine htracks.ended_iff_fine ?_ hw
      rintro i s ⟨zoneid,hid,hs⟩ hset
      rw [hs.fired_iff hset]
      refine ⟨fun hfine zoneid' hid' => ?_,fun hfine => hfine zoneid hid⟩
      obtain rfl := Option.some.inj (hid'.symm.trans hid)
      exact hfine
    rw [forall_lt_iff,ne_eq,List.length_eq_zero_iff] at hended
    have hne := retrieveZones_ne_nil hzones
    rw [Fetch.fired,hended]
    refine ⟨fun h => ⟨zones,hzones,hvalid,h.2⟩,fun ⟨zones',hzones',_,hall⟩ => ?_⟩
    obtain rfl := Option.some.inj (hzones'.symm.trans hzones)
    exact ⟨hne,hall⟩

end Fine

section Casts

/-- The answers come from the databases that the reads are given. -/
def Answered (A : Answers) (m : Reply) : Prop := m.2 = A m.1

/-- `child` accepts the strings of the request and the cast of every quantity that is
wanted is possible. -/
def RequestFits (zh : Bool) (A : Answers) (zoneID id : String) : Prop :=
  ∀ req, requestFields zoneID id (A []) = some req → ValidPart req.senderID ∧
    (∀ read ∈ contentReads zoneID id (A []), ValidPart read.itemID) ∧
    ∀ (i : Nat) (read : ItemRead), (contentReads zoneID id (A []))[i]? = some read →
      read.Fits zh (A [0,i])

def ZoneFits (zh : Bool) (A : Answers) (zoneid : String) : Prop :=
  (∀ id ∈ keys (zoneRef zoneid) (A []), ValidPart id) ∧
    ∀ i id, (keys (zoneRef zoneid) (A []))[i]? = some id → RequestFits zh (A.below i) zoneid id

def FetchFits (zh : Bool) (A : Answers) (uid : String) : Prop :=
  ∀ zones, retrieveZones uid (A []) = some zones → (∀ zone ∈ zones, ValidPart zone) ∧
    ∀ i zoneid, zones[i]? = some zoneid → ZoneFits zh (A.below i) zoneid

variable {zh : Bool} {A : Answers} {zoneID id zoneid uid : String} {f : RequestFetch}
  {z : ZoneFetch} {fetch : Fetch} {m : Reply} {e : Fault}

theorem RequestFine.fits (h : RequestFine zh A zoneID id) : RequestFits zh A zoneID id := by
  intro req hreq
  rcases h with hnone | ⟨-,hsender,hfits⟩
  · rw [hreq] at hnone
    cases hnone
  · exact ⟨hsender req hreq,hfits⟩

theorem ZoneFine.fits (h : ZoneFine zh A zoneid) : ZoneFits zh A zoneid := by
  rcases h with hnone | ⟨-,hvalid,hall⟩
  · have hkeys : keys (zoneRef zoneid) (A []) = [] := by rw [keys,hnone]; rfl
    simp [ZoneFits,hkeys]
  · exact ⟨hvalid,fun i id hid => (hall i id hid).fits⟩

theorem ZonesFine.fits (h : ZonesFine zh A uid) : FetchFits zh A uid := by
  obtain ⟨zones,hzones,hvalid,hall⟩ := h
  intro zones' hzones'
  obtain rfl := Option.some.inj (hzones'.symm.trans hzones)
  exact ⟨hvalid,fun i zoneid hid => (hall i zoneid hid).fits⟩

theorem ItemRead.Fits.goes {read : ItemRead} {db : Database} (h : read.Fits zh db) :
    read.answer zh db ≠ .error e := by
  unfold ItemRead.answer
  split
  · exact fun herr => nomatch herr
  · split
    · exact fun herr => nomatch herr
    · rename_i item hitem
      obtain ⟨n,hn⟩ := Option.isSome_iff_exists.mp (h (by simp [hitem]))
      simp [forcedInt,hn]

theorem RequestFetch.Tracks.goes (h : f.Tracks zh A zoneID id) (hfits : RequestFits zh A zoneID id)
    (hm : Answered A m) : f.answer zh zoneID m ≠ .error e := by
  intro herr
  cases f with
  | reading id' =>
    obtain rfl : id' = id := h
    simp only [RequestFetch.answer] at herr
    split at herr
    · rename_i hpath
      have hdb : m.2 = A [] := hm.trans (congrArg A hpath)
      rw [hdb] at herr
      split at herr
      · cases herr
      · rename_i req hreq
        rw [getAllItems_ok_iff.mpr ⟨(hfits req hreq).2.1,rfl⟩] at herr
        cases herr
    · cases herr
  | malformed id' => cases herr
  | wellFormed id' body =>
    obtain ⟨-,hbody⟩ := h
    simp only [RequestFetch.answer] at herr
    split at herr
    · rename_i i hpath
      split at herr
      · rename_i e' hitems
        have hsub : ∀ k s db e, k < (contentReads zoneID id (A [])).length →
            ItemAt zh A zoneID id k s → db = A [0,k] → ItemRead.answer zh db s ≠ .error e := by
          rintro k s db e hk ⟨read,hread,htracks⟩ rfl ha
          exact (htracks.fetched.2.mpr ((hfits _ hbody.fields).2.2 k read hread)).goes ha
        exact hbody.items.answer_ok hsub (hm.trans (congrArg A hpath)) e' hitems
      · cases herr
      · rename_i items collected hitems
        have hsender : ∀ part ∈ [body.fields.senderID], ValidPart part := by
          simpa using (hfits _ hbody.fields).1
        rw [(observeSingleEvent_ok_iff (by decide) (by decide)).mpr ⟨hsender,rfl⟩] at herr
        cases herr
    · split at herr <;> cases herr
    · cases herr

theorem ZoneFetch.Tracks.goes (h : z.Tracks zh A zoneid) (hzone : ValidPart zoneid)
    (hfits : ZoneFits zh A zoneid) (hm : Answered A m) : z.answer zh m ≠ .error e := by
  intro herr
  cases z with
  | reading zoneid' =>
    obtain rfl : zoneid' = zoneid := h
    simp only [ZoneFetch.answer] at herr
    split at herr
    · rename_i hpath
      have hdb : m.2 = A [] := hm.trans (congrArg A hpath)
      rw [hdb] at herr
      split at herr
      · cases herr
      · rw [getRequests_ok_iff.mpr ⟨fun id hid => ⟨hzone,hfits.1 id hid⟩,rfl⟩] at herr
        cases herr
    · cases herr
  | absent zoneid' => cases herr
  | present zoneid' requests =>
    obtain ⟨rfl,-,-,htracks⟩ := h
    simp only [ZoneFetch.answer] at herr
    split at herr
    · rename_i i path hpath
      split at herr
      · rename_i e' hrun
        have hsub : ∀ k s m e, k < (keys (zoneRef zoneid') (A [])).length →
            RequestAt zh A zoneid' k s → Answered (A.below k) m →
            RequestFetch.answer zh zoneid' m s ≠ .error e := by
          rintro k s m e hk ⟨id,hid,hs⟩ hmsg ha
          exact hs.goes (hfits.2 k id hid) hmsg ha
        have hdb : Answered (A.below i) (path,m.2) := hm.trans (congrArg A hpath)
        exact htracks.answer_ok hsub hdb e' hrun
      · cases herr
    · cases herr

theorem Fetch.Tracks.goes (h : fetch.Tracks zh A uid) (hfits : FetchFits zh A uid)
    (hm : Answered A m) : fetch.answer zh m ≠ .error e := by
  intro herr
  cases fetch with
  | reading uid' =>
    obtain rfl : uid' = uid := h
    simp only [Fetch.answer] at herr
    split at herr
    · rename_i hpath
      have hdb : m.2 = A [] := hm.trans (congrArg A hpath)
      rw [hdb] at herr
      split at herr
      · cases herr
      · rename_i zones hzones
        rw [getZoneRequests_ok_iff.mpr ⟨(hfits zones hzones).1,rfl⟩] at herr
        cases herr
    · cases herr
  | refused => cases herr
  | fetching j =>
    obtain ⟨zones,hzones,hvalid,htracks⟩ := h
    simp only [Fetch.answer] at herr
    split at herr
    · rename_i i path hpath
      split at herr
      · rename_i e' hrun
        have hsub : ∀ k s m e, k < zones.length → ZoneAt zh A zones k s →
            Answered (A.below k) m → ZoneFetch.answer zh m s ≠ .error e := by
          rintro k s m e hk ⟨zoneid,hid,hs⟩ hmsg ha
          exact hs.goes (hvalid zoneid (List.mem_of_getElem? hid))
            ((hfits zones hzones).2 k zoneid hid) hmsg ha
        have hdb : Answered (A.below i) (path,m.2) := hm.trans (congrArg A hpath)
        exact htracks.answer_ok hsub hdb e' hrun
      · cases herr
    · cases herr

end Casts

section Delivered

abbrev FetchRun := Calls Fetch (List ZoneRequests)

def FetchRun.start (uid : String) : FetchRun := ⟨.reading uid,[]⟩

def FetchRun.step (zh : Bool) (run : FetchRun) (m : Reply) : Option FetchRun :=
  Calls.step (Fetch.answer zh) run m

variable {zh : Bool} {A : Answers} {uid : String} {run : FetchRun}

theorem FetchRun.keeps (hr : Reaches (FetchRun.step zh) (fun _ => Answered A) (.start uid) run) :
    run.Keeps Fetch.fired (Fetch.Tracks zh A uid) fun snapshot =>
      ∃ zones, retrieveZones uid (A []) = some zones ∧
        Agree SameZone snapshot (fetchedZones zh A zones) := by
  have hstart : (Fetch.reading uid).Tracks zh A uid := rfl
  exact Calls.keeps_of_reaches (delivers_fetch zh A uid) hstart rfl hr

theorem FetchRun.goes (hr : Reaches (FetchRun.step zh) (fun _ => Answered A) (.start uid) run)
    (hfits : FetchFits zh A uid) {m : Reply} (hm : Answered A m) :
    (run.step zh m).isSome = true := by
  rw [FetchRun.step,Calls.step]
  split
  · rename_i e herr
    exact absurd herr ((FetchRun.keeps hr).ok.goes hfits hm)
  · rfl

/-- For all answers and every order in which they arrive: one call at most, after all
reads, and of what the answers make of each zone, request and item. No answer stops the app
where the strings are accepted and the quantities are integers. -/
theorem fetch_delivers (zh : Bool) (A : Answers) (uid : String) (run : FetchRun)
    (hr : Reaches (FetchRun.step zh) (fun _ => Answered A) (.start uid) run) :
    run.calls.length ≤ 1 ∧ (run.calls ≠ [] → run.state.waiting = false) ∧
    (∀ n ∈ run.state.counters, 0 ≤ n) ∧
    (∀ snapshot ∈ run.calls, ∃ zones, retrieveZones uid (A []) = some zones ∧
      Agree SameZone snapshot (fetchedZones zh A zones)) ∧
    (FetchFits zh A uid → ∀ m, Answered A m → (run.step zh m).isSome = true) := by
  have hkeeps := FetchRun.keeps hr
  refine ⟨?_,fun hcalled => hkeeps.ok.settled (hkeeps.called_iff.mp hcalled),hkeeps.ok.nonneg,
    hkeeps.results,fun hfits m hm => FetchRun.goes hr hfits hm⟩
  rw [hkeeps.once]
  split <;> omega

def northPaths : List (List Nat) := [[],[0],[0,0],[0,0,0,0],[0,0,1,0]]

theorem fetch_delivers_north : ∃ run : FetchRun,
    (run.state.fired = true ∧ run.calls.length = 1) ∧
    run.calls.length ≤ 1 ∧ (run.calls ≠ [] → run.state.waiting = false) ∧
    (∀ n ∈ run.state.counters, 0 ≤ n) ∧
    (∀ snapshot ∈ run.calls, ∃ zones, retrieveZones "u1" northServer = some zones ∧
      Agree SameZone snapshot (fetchedZones false (fun _ => northServer) zones)) ∧
    (FetchFits false (fun _ => northServer) "u1" →
      ∀ m, Answered (fun _ => northServer) m → (run.step false m).isSome = true) := by
  have hrun : (play (FetchRun.step false) (fun _ m => m.2 = northServer) (.start "u1")
      (northPaths.map fun path => (path,northServer))).map (fun run =>
        (run.state.fired,run.calls.length)) = some (true,1) := rfl
  obtain ⟨run,hplay,hfired⟩ := Option.map_eq_some_iff.mp hrun
  have hr : Reaches (FetchRun.step false) (fun _ => Answered fun _ => northServer) (.start "u1")
      run := (reaches_of_play hplay).mono fun _ _ h => h
  exact ⟨run,Prod.mk.inj hfired,fetch_delivers false (fun _ => northServer) "u1" run hr⟩

end Delivered

section Work

def RequestFetch.work (zoneID : String) (A : Answers) : RequestFetch → Nat
  | .reading id => (contentReads zoneID id (A [])).length + 2
  | .malformed _ => 0
  | .wellFormed _ body =>
    body.items.subs.countP (!·.answered) + body.elderly.countP (!·.answered) +
      if body.elderly = [] then 1 else 0

def ZoneFetch.work (A : Answers) : ZoneFetch → Nat
  | .reading zoneid =>
    totalWork (fun i => RequestFetch.work zoneid (A.below i)) 0
      ((keys (zoneRef zoneid) (A [])).map RequestFetch.reading) + 1
  | .absent _ => 0
  | .present zoneid requests =>
    totalWork (fun i => RequestFetch.work zoneid (A.below i)) 0 requests.subs

def Fetch.work (A : Answers) : Fetch → Nat
  | .reading uid =>
    totalWork (fun i => ZoneFetch.work (A.below i)) 0
      (((retrieveZones uid (A [])).getD []).map ZoneFetch.reading) + 1
  | .refused => 0
  | .fetching zones => totalWork (fun i => ZoneFetch.work (A.below i)) 0 zones.subs

variable {zh : Bool} {A : Answers} {zoneID id zoneid uid : String}

theorem countP_set_answered {τ : Type} {p : τ → Bool} {ts : List τ} {i : Nat} {t t' : τ}
    (ht : ts[i]? = some t) (hp : p t = true) (hp' : p t' = false) :
    (ts.set i t').countP p + 1 = ts.countP p := by
  obtain ⟨hi,rfl⟩ := List.getElem?_eq_some_iff.mp ht
  have hpos : 0 < ts.countP p := List.countP_pos_iff.mpr ⟨_,List.getElem_mem hi,hp⟩
  rw [List.countP_set hi,hp,hp']
  simp
  omega

theorem items_less {items items' : Join ItemRead RequestItem} {i : Nat} {read : ItemRead}
    {db : Database} {called : Option (List RequestItem)} (hi : items.subs[i]? = some read)
    (hopen : read.answered = false)
    (hrun : items.answer (ItemRead.answer zh) i db = .ok (items',called)) :
    items'.subs.countP (!·.answered) + 1 = items.subs.countP (!·.answered) := by
  have hset : ∀ {read' : ItemRead} {c : Option (Option RequestItem)},
      read.answer zh db = .ok (read',c) →
      (items.subs.set i read').countP (!·.answered) + 1 = items.subs.countP (!·.answered) := by
    intro read' c ha
    refine countP_set_answered hi (by simp [hopen]) ?_
    obtain ⟨hanswered,-⟩ | ⟨-,rfl,-⟩ := ItemRead.answer_ok ha
    · rw [hopen] at hanswered
      cases hanswered
    · rfl
  simp only [Join.answer,hi] at hrun
  split at hrun
  · cases hrun
  · rename_i read' ha
    obtain ⟨rfl,-⟩ := Prod.mk.inj (Except.ok.inj hrun)
    exact hset ha
  · rename_i read' result ha
    obtain ⟨rfl,-⟩ := Prod.mk.inj (Except.ok.inj hrun)
    exact hset ha

theorem progresses_request (zh : Bool) (A : Answers) (zoneID id : String) :
    Progresses (RequestFetch.answer zh zoneID) (Answered A) (RequestFetch.Tracks zh A zoneID id)
      RequestFetch.waiting (RequestFetch.work zoneID A) := by
  intro f hf hw
  cases f with
  | malformed id' => cases hw
  | reading id' =>
    refine ⟨([],A []),rfl,fun f' called hrun => ?_⟩
    simp only [RequestFetch.answer,if_pos] at hrun
    split at hrun
    · obtain ⟨rfl,-⟩ := Prod.mk.inj (Except.ok.inj hrun)
      simp [RequestFetch.work]
    · split at hrun
      · cases hrun
      rename_i items hitems
      obtain ⟨-,rfl⟩ := getAllItems_ok_iff.mp hitems
      obtain ⟨rfl,-⟩ := Prod.mk.inj (Except.ok.inj hrun)
      have hle := List.countP_le_length (p := fun read : ItemRead => !read.answered)
        (l := contentReads zoneID id' (A []))
      simp only [RequestFetch.work,Join.start,List.countP_nil,if_true]
      omega
  | wellFormed id' body =>
    obtain ⟨-,hbody⟩ := hf
    simp only [RequestFetch.waiting,Bool.or_eq_true,List.any_eq_true] at hw
    rcases hw with ⟨read,hread,hopen⟩ | ⟨read,hread,hopen⟩
    · obtain ⟨i,hi⟩ := List.getElem?_of_mem hread
      have hopen' : read.answered = false := by simpa using hopen
      refine ⟨([0,i],A [0,i]),rfl,fun f' called hrun => ?_⟩
      simp only [RequestFetch.answer] at hrun
      split at hrun
      · cases hrun
      · rename_i items hitems
        obtain ⟨rfl,-⟩ := Prod.mk.inj (Except.ok.inj hrun)
        have hless := items_less hi hopen' hitems
        simp only [RequestFetch.work]
        omega
      · rename_i items collected hitems
        split at hrun
        · cases hrun
        rename_i read' hread'
        obtain ⟨-,rfl⟩ := (observeSingleEvent_ok_iff (by decide) (by decide)).mp hread'
        obtain ⟨rfl,-⟩ := Prod.mk.inj (Except.ok.inj hrun)
        have hless := items_less hi hopen' hitems
        -- the last item: the read of the sender is issued
        have hnone : body.elderly = [] := by
          rcases hbody.elderly with ⟨-,hnone⟩ | ⟨hended,-,-⟩
          · exact hnone
          · have hset : body.items.subs.any (!·.answered) = false :=
              hbody.items.settled_of_ended (fun _ _ _ ha => by simp [ha]) hended
            rw [List.any_eq_false] at hset
            exact absurd hopen (hset read hread)
        simp [RequestFetch.work,hnone]
        omega
    · obtain ⟨k,hk⟩ := List.getElem?_of_mem hread
      obtain ⟨items,answered⟩ := read
      obtain rfl : answered = false := by simpa using hopen
      refine ⟨([1,k],A [1,k]),rfl,fun f' called hrun => ?_⟩
      simp only [RequestFetch.answer,hk] at hrun
      obtain ⟨rfl,-⟩ := Prod.mk.inj (Except.ok.inj hrun)
      have hless : (body.elderly.set k ⟨items,true⟩).countP (!·.answered) + 1 =
          body.elderly.countP (!·.answered) := countP_set_answered hk rfl rfl
      have hne : body.elderly ≠ [] := List.ne_nil_of_mem hread
      simp only [RequestFetch.work,hne,if_false,List.set_eq_nil_iff]
      omega

theorem progresses_zone (zh : Bool) (A : Answers) (zoneid : String) :
    Progresses (ZoneFetch.answer zh) (Answered A) (ZoneFetch.Tracks zh A zoneid)
      ZoneFetch.waiting (ZoneFetch.work A) := by
  intro z hz hw
  cases z with
  | absent zoneid' => cases hw
  | reading zoneid' =>
    refine ⟨([],A []),rfl,fun z' called hrun => ?_⟩
    simp only [ZoneFetch.answer,if_pos] at hrun
    split at hrun
    · obtain ⟨rfl,-⟩ := Prod.mk.inj (Except.ok.inj hrun)
      simp [ZoneFetch.work]
    · split at hrun
      · cases hrun
      rename_i requests hrequests
      obtain ⟨-,rfl⟩ := getRequests_ok_iff.mp hrequests
      obtain ⟨rfl,-⟩ := Prod.mk.inj (Except.ok.inj hrun)
      simp [ZoneFetch.work,Join.start]
  | present zoneid' requests =>
    obtain ⟨rfl,-,-,htracks⟩ := hz
    have hsub : ∀ i, Progresses (RequestFetch.answer zh zoneid') (Answered (A.below i))
        (RequestAt zh A zoneid' i) RequestFetch.waiting
        (RequestFetch.work zoneid' (A.below i)) := by
      rintro i f ⟨id,-,hf⟩ hwf
      exact progresses_request zh (A.below i) zoneid' id f hf hwf
    obtain ⟨⟨i,path,db⟩,hm,hless⟩ := progresses_join hsub requests htracks hw
    refine ⟨(i :: path,db),hm,fun z' called hrun => ?_⟩
    simp only [ZoneFetch.answer] at hrun
    split at hrun
    · cases hrun
    · rename_i requests' reqs hreqs
      obtain ⟨rfl,-⟩ := Prod.mk.inj (Except.ok.inj hrun)
      exact hless requests' reqs hreqs

theorem progresses_fetch (zh : Bool) (A : Answers) (uid : String) :
    Progresses (Fetch.answer zh) (Answered A) (Fetch.Tracks zh A uid) Fetch.waiting
      (Fetch.work A) := by
  intro f hf hw
  cases f with
  | refused => cases hw
  | reading uid' =>
    refine ⟨([],A []),rfl,fun f' called hrun => ?_⟩
    simp only [Fetch.answer,if_pos] at hrun
    split at hrun
    · obtain ⟨rfl,-⟩ := Prod.mk.inj (Except.ok.inj hrun)
      simp [Fetch.work]
    · rename_i zones hzones
      split at hrun
      · cases hrun
      rename_i fetches hfetches
      obtain ⟨-,rfl⟩ := getZoneRequests_ok_iff.mp hfetches
      obtain ⟨rfl,-⟩ := Prod.mk.inj (Except.ok.inj hrun)
      simp [Fetch.work,Join.start,hzones]
  | fetching j =>
    obtain ⟨zones,-,-,htracks⟩ := hf
    have hsub : ∀ i, Progresses (ZoneFetch.answer zh) (Answered (A.below i)) (ZoneAt zh A zones i)
        ZoneFetch.waiting (ZoneFetch.work (A.below i)) := by
      rintro i z ⟨zoneid,-,hz⟩ hwz
      exact progresses_zone zh (A.below i) zoneid z hz hwz
    obtain ⟨⟨i,path,db⟩,hm,hless⟩ := progresses_join hsub j htracks hw
    refine ⟨(i :: path,db),hm,fun f' called hrun => ?_⟩
    simp only [Fetch.answer] at hrun
    split at hrun
    · cases hrun
    · rename_i j' snapshot hj
      obtain ⟨rfl,-⟩ := Prod.mk.inj (Except.ok.inj hrun)
      exact hless j' snapshot hj

end Work

section Ends

/-- For all answers: the call does not stop the app, and in every run no answer does and
`onComplete` has been called when nothing is outstanding, exactly if the answers are fine. -/
theorem onComplete_iff (zh : Bool) (A : Answers) (uid : String) :
    (∃ fetch, fetchAllZoneRequests (some uid) = .ok fetch ∧
      ∀ run, Reaches (FetchRun.step zh) (fun _ => Answered A) ⟨fetch,[]⟩ run →
        (∀ m, Answered A m → (run.step zh m).isSome = true) ∧
        (run.state.waiting = false → run.calls ≠ [])) ↔
    FetchFine zh A uid := by
  constructor
  · rintro ⟨fetch,hstart,h⟩
    obtain ⟨hvalid,rfl⟩ := fetchAllZoneRequests_ok_iff.mp hstart
    obtain ⟨run,hr,hset⟩ : ∃ run, Reaches (FetchRun.step zh) (fun _ => Answered A) (.start uid)
        run ∧ run.state.waiting = false :=
      exists_settled (progresses_fetch zh A uid) (fun run hr => (FetchRun.keeps hr).ok)
        (fun run hr => (h run hr).1) .start
    have hkeeps := FetchRun.keeps hr
    exact ⟨hvalid,(hkeeps.ok.fired_iff hset).mp (hkeeps.called_iff.mp ((h run hr).2 hset))⟩
  · rintro ⟨hvalid,hfine⟩
    refine ⟨.reading uid,fetchAllZoneRequests_ok_iff.mpr ⟨hvalid,rfl⟩,fun run hr => ?_⟩
    have hkeeps := FetchRun.keeps hr
    refine ⟨fun m hm => FetchRun.goes hr hfine.fits hm,fun hset => ?_⟩
    exact hkeeps.called_iff.mpr ((hkeeps.ok.fired_iff hset).mpr hfine)

def stuckServer : Database := northServer ++ [
  (["requests","north","r2","dateCreated"],.number 2),
  (["requests","north","r2","senderID"],.string "s1"),
  (["requests","north","r2","status"],.string "Pending"),
  (["requests","north","r2","delSlotStart"],.number 6000)]

/-- Its handler is never called, and so neither is that of the whole fetch. -/
theorem not_onComplete : ¬ ∀ (zh : Bool) (uid : String) (db : Database) (run : FetchRun),
    Reaches (FetchRun.step zh) (fun _ => Answered fun _ => db) (.start uid) run →
    run.state.waiting = false → run.calls ≠ [] := by
  intro h
  have hrun : (play (FetchRun.step false) (fun _ m => m.2 = stuckServer) (.start "u1")
      ((northPaths ++ [[0,1]]).map fun path => (path,stuckServer))).map (fun run =>
        (run.state.waiting,run.calls.length)) = some (false,0) := rfl
  obtain ⟨run,hplay,hend⟩ := Option.map_eq_some_iff.mp hrun
  obtain ⟨hset,hnone⟩ := Prod.mk.inj hend
  have hr : Reaches (FetchRun.step false) (fun _ => Answered fun _ => stuckServer) (.start "u1")
      run := (reaches_of_play hplay).mono fun _ _ h => h
  exact h false "u1" stuckServer run hr hset (List.length_eq_zero_iff.mp hnone)

end Ends

end Answr
