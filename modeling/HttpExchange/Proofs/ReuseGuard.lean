import HttpExchange.Proofs.HeadReading
import HttpExchange.Proofs.Usage

/-!
# One unread body at a time

A connection is idle only between exchanges: as long as a part of a response is unread it
takes no request and reads no response, whether the body was handed out to a reader or not.
`Usage.origins` says which response each reader of a run belongs to, and a response is
`Unfinished` if it has a body and no reader of it has come to an end.

* `Usage.Guarded`: at most one body is open, and none while the connection is idle. Every
  call preserves it, closing the connection included (`Guarded.step`).
* `Usage.reuse_guarded`: what follows for the responses of a run.
-/

namespace HttpExchange

namespace Usage

/-! ## Open bodies -/

section

variable {σ : Type} {u : Usage σ}

/-- At most one body is open, and none while the link is idle. -/
structure Guarded (u : Usage σ) : Prop where
  atMostOne : u.openBodies ≤ 1
  idle : u.link.phase = .idle → u.openBodies = 0

theorem Sound.guarded (h : u.Sound) : u.Guarded := by
  refine ⟨h.atMostOne, ?_⟩
  intro hidle
  refine h.inBody ?_
  rw [hidle]
  exact Phase.noConfusion

theorem Guarded.of_link (h : u.Guarded) {l' : Link σ}
    (hphase : l'.phase = .idle → u.link.phase = .idle) : Guarded { u with link := l' } :=
  ⟨h.atMostOne, fun hidle => h.idle (hphase hidle)⟩

theorem Guarded.reading (h : u.Guarded) {i : Nat} {f : Reading σ → Reading σ}
    (hf : Reading.IsCall f) : (u.reading i f).Guarded := by
  have hone := h.atMostOne
  rcases openBodies_reading (u := u) (i := i) hf with ⟨hphase, hcount⟩ | hcount
  · constructor
    · rwa [hcount]
    · intro hidle
      rw [hphase] at hidle
      rw [hcount]
      exact h.idle hidle
  · constructor
    · omega
    · intro _
      omega

/-- A response is read on an idle link only, so that its body is the only open one. -/
theorem Guarded.keep (h : u.Guarded) {read : Except Failure Response × Link σ}
    (hidle : u.link.phase = .idle → ∀ r l', read = (.ok r, l') →
      r.bodyTaken = false ∧ l'.phase = r.phaseAfter)
    (hrefused : u.link.phase ≠ .idle → ∃ failure, read = (.error failure, u.link)) :
    (u.keep read).Guarded := by
  by_cases hphase : u.link.phase = .idle
  · exact (sound_keep (h.idle hphase) (hidle hphase)).guarded
  · obtain ⟨failure, rfl⟩ := hrefused hphase
    have hkeep : u.keep (.error failure, u.link) = u := by
      simp only [Usage.keep, List.append_nil]
    rwa [hkeep]

theorem Guarded.takeBody (h : u.Guarded) (i : Nat) : (u.takeBody i).Guarded := by
  constructor
  · rw [openBodies_takeBody]
    exact h.atMostOne
  · intro hidle
    rw [link_takeBody] at hidle
    rw [openBodies_takeBody]
    exact h.idle hidle

theorem guarded_start (l : Link σ) : (start l).Guarded := ⟨Nat.zero_le 1, fun _ => rfl⟩

variable [SecureTransport σ]

/-- **What every call preserves.** Closing a connection over an open body leaves that body
open, but the connection is not idle then; when the body is finished later, no other is open. -/
theorem Guarded.step (h : u.Guarded) (call : Call) : (u.step call).Guarded := by
  cases call with
  | writeRequest request =>
      refine h.of_link ?_
      by_cases hidle : u.link.phase = .idle
      · exact fun _ => hidle
      · obtain ⟨why, hwrite⟩ := Link.write_of_not_idle hidle request
        rw [hwrite]
        exact id
  | readResponse method capacity =>
      refine h.keep (fun _ r l' => Link.readResponse_ok) ?_
      intro hne
      obtain ⟨why, hread⟩ := Link.readResponse_of_not_idle hne method capacity
      exact ⟨_, hread⟩
  | send request capacity =>
      refine h.keep (fun _ r l' => Link.send_ok) ?_
      intro hne
      obtain ⟨why, hsend⟩ := Link.send_of_not_idle hne request capacity
      exact ⟨_, hsend⟩
  | takeBody i => exact h.takeBody i
  | readBody i n => exact h.reading (Reading.isCall_read n)
  | readToEnd i => exact h.reading Reading.isCall_readToEnd
  | discard i => exact h.reading Reading.isCall_discard
  | read n =>
      refine h.of_link ?_
      rw [Link.phase_read]
      exact id
  | write data =>
      refine h.of_link ?_
      rw [Link.phase_write]
      exact id
  | flush =>
      refine h.of_link ?_
      rw [Link.phase_flush]
      exact id
  | close =>
      refine h.of_link ?_
      rw [Link.phase_close]
      exact fun hidle => by cases hidle
  | intoBuffered capacity =>
      refine h.of_link ?_
      rw [Link.phase_intoBuffered]
      exact id

theorem Guarded.run (h : u.Guarded) (calls : List Call) : (u.run calls).Guarded := by
  induction calls using List.reverseRecOn with
  | nil => exact h
  | append_singleton calls call ih =>
      rw [run_concat]
      exact ih.step call

end

/-! ## Whose body a reader reads -/

section

variable {σ : Type} {u : Usage σ} {os : List Nat} {i : Nat}

/-- The response whose body a call hands out. -/
def handedOut (u : Usage σ) : Call → List Nat
  | .takeBody i => if u.responses[i]?.any (!·.bodyTaken) then [i] else []
  | _ => []

/-- Every reader has its response: those are the responses whose bodies were handed out, each
of them to one reader. -/
structure Assigned (u : Usage σ) (os : List Nat) : Prop where
  length_eq : os.length = u.readers.length
  nodup : os.Nodup
  mem_iff {i : Nat} : i ∈ os ↔ ∃ r, u.responses[i]? = some r ∧ r.bodyTaken = true

theorem assigned_start (l : Link σ) : (start l).Assigned [] := by
  refine ⟨rfl, List.nodup_nil, ?_⟩
  intro i
  constructor
  · intro hmem
    cases hmem
  · rintro ⟨r, hr, -⟩
    cases hr

theorem Assigned.of_link (h : u.Assigned os) (l' : Link σ) :
    Assigned { u with link := l' } (os ++ []) := by
  rw [List.append_nil]
  exact ⟨h.length_eq, h.nodup, h.mem_iff⟩

theorem Assigned.keep (h : u.Assigned os) {read : Except Failure Response × Link σ}
    (hread : ∀ r l', read = (.ok r, l') → r.bodyTaken = false) :
    (u.keep read).Assigned (os ++ []) := by
  obtain ⟨outcome, l'⟩ := read
  cases outcome with
  | error failure =>
      have hkeep : u.keep (.error failure, l') = { u with link := l' } := by
        simp only [Usage.keep, List.append_nil]
      rw [hkeep]
      exact h.of_link l'
  | ok r =>
      have huntaken := hread r l' rfl
      rw [List.append_nil]
      refine ⟨h.length_eq, h.nodup, ?_⟩
      intro i
      show _ ↔ ∃ r', (u.responses ++ [r])[i]? = some r' ∧ _
      rw [h.mem_iff]
      constructor
      · rintro ⟨r', hr', htaken⟩
        have hi := (List.getElem?_eq_some_iff.mp hr').1
        exact ⟨r', by rwa [List.getElem?_append_left hi], htaken⟩
      · rintro ⟨r', hr', htaken⟩
        rcases Nat.lt_or_ge i u.responses.length with hi | hi
        · exact ⟨r', by rwa [List.getElem?_append_left hi] at hr', htaken⟩
        · rw [List.getElem?_append_right hi] at hr'
          -- The response that was just read has not handed out its body.
          obtain rfl := List.mem_singleton.mp (List.mem_of_getElem? hr')
          rw [huntaken] at htaken
          cases htaken

theorem Assigned.takeBody (h : u.Assigned os) (i : Nat) :
    (u.takeBody i).Assigned (os ++ u.handedOut (.takeBody i)) := by
  cases hr : u.responses[i]? with
  | none =>
      have hnone : u.handedOut (.takeBody i) = [] := by simp [handedOut, hr]
      rw [takeBody_of_none hr, hnone, List.append_nil]
      exact h
  | some r =>
      cases htaken : r.bodyTaken with
      | true =>
          have hnone : u.handedOut (.takeBody i) = [] := by simp [handedOut, hr, htaken]
          rw [takeBody_of_taken hr htaken, hnone, List.append_nil]
          exact h
      | false =>
          have hone : u.handedOut (.takeBody i) = [i] := by simp [handedOut, hr, htaken]
          have hi := (List.getElem?_eq_some_iff.mp hr).1
          have hfresh : i ∉ os := by
            intro hmem
            obtain ⟨r', hr', htaken'⟩ := h.mem_iff.mp hmem
            rw [hr] at hr'
            cases hr'
            rw [htaken] at htaken'
            cases htaken'
          rw [takeBody_of_untaken hr htaken, hone]
          refine ⟨?_, List.nodup_append.mpr ⟨h.nodup, List.nodup_cons.mpr (by simp), ?_⟩, ?_⟩
          · rw [List.length_append, List.length_append, h.length_eq]
            rfl
          · intro a ha b hb hab
            rw [hab, List.mem_singleton.mp hb] at ha
            exact hfresh ha
          · intro j
            show _ ↔ ∃ r', (u.responses.set i r.take)[j]? = some r' ∧ _
            rw [List.mem_append, h.mem_iff, List.mem_singleton]
            by_cases hj : i = j
            · subst hj
              rw [List.getElem?_set_self hi]
              exact ⟨fun _ => ⟨r.take, rfl, rfl⟩, fun _ => .inr rfl⟩
            · rw [List.getElem?_set_ne hj]
              exact ⟨fun hor => hor.resolve_right (Ne.symm hj), .inl⟩

theorem Assigned.reading (h : u.Assigned os) (i : Nat) (f : Reading σ → Reading σ) :
    (u.reading i f).Assigned (os ++ []) := by
  rw [List.append_nil]
  unfold Usage.reading
  split
  · exact h
  · exact ⟨by rw [List.length_set, h.length_eq], h.nodup, h.mem_iff⟩

variable [SecureTransport σ]

theorem Assigned.step (h : u.Assigned os) (call : Call) :
    (u.step call).Assigned (os ++ u.handedOut call) := by
  cases call with
  | writeRequest request => exact h.of_link _
  | readResponse method capacity => exact h.keep fun r l' hread => (Link.readResponse_ok hread).1
  | send request capacity => exact h.keep fun r l' hsend => (Link.send_ok hsend).1
  | takeBody i => exact h.takeBody i
  | readBody i n => exact h.reading i fun x => (x.read n).2
  | readToEnd i => exact h.reading i fun x => x.readToEnd.2
  | discard i => exact h.reading i fun x => x.discard.2
  | read n => exact h.of_link _
  | write data => exact h.of_link _
  | flush => exact h.of_link _
  | close => exact h.of_link _
  | intoBuffered capacity => exact h.of_link _

/-- The responses that the readers of a run belong to, in the order in which the readers were
handed out. -/
def origins (u : Usage σ) : List Call → List Nat
  | [] => []
  | call :: calls => u.handedOut call ++ (u.step call).origins calls

theorem Assigned.run (h : u.Assigned os) (calls : List Call) :
    (u.run calls).Assigned (os ++ u.origins calls) := by
  induction calls generalizing u os with
  | nil =>
      rw [origins, List.append_nil]
      exact h
  | cons call calls ih =>
      have := ih (h.step call)
      rwa [List.append_assoc] at this

end

/-! ## Unfinished responses -/

section

variable {σ : Type} {u : Usage σ} {os : List Nat} {i j : Nat}

/-- Response `i` has a body, and no reader of it has come to its end or failed. -/
def Unfinished (u : Usage σ) (os : List Nat) (i : Nat) : Prop :=
  ∃ r, u.responses[i]? = some r ∧ r.framing.isEmpty = false ∧
    ∀ (k : Nat) (reader : BodyReader),
      os[k]? = some i → u.readers[k]? = some reader → reader.isDone = false

/-- An open body is still to be handed out, or there is an unfinished reader of it. -/
theorem Assigned.open_of_unfinished (h : u.Assigned os) (hi : u.Unfinished os i) :
    (∃ r, u.responses[i]? = some r ∧ r.holdsBody = true) ∨
      ∃ (k : Nat) (reader : BodyReader),
        os[k]? = some i ∧ u.readers[k]? = some reader ∧ (!reader.isDone) = true := by
  obtain ⟨r, hr, hframing, hreaders⟩ := hi
  cases htaken : r.bodyTaken with
  | false =>
      left
      exact ⟨r, hr, by simp [Response.holdsBody, htaken, hframing]⟩
  | true =>
      right
      obtain ⟨k, hk, hget⟩ := List.getElem_of_mem (h.mem_iff.mpr ⟨r, hr, htaken⟩)
      have horigin : os[k]? = some i := by rw [List.getElem?_eq_getElem hk, hget]
      have hreader := List.getElem?_eq_getElem (l := u.readers) (i := k) (h.length_eq ▸ hk)
      exact ⟨k, _, horigin, hreader, by rw [hreaders k _ horigin hreader]; rfl⟩

theorem countP_pos_of_getElem? {α : Type} {p : α → Bool} {xs : List α} {a : α}
    (ha : xs[i]? = some a) (hp : p a = true) : 0 < xs.countP p :=
  List.countP_pos_iff.mpr ⟨a, List.mem_of_getElem? ha, hp⟩

/-- Where at most one element has a property, it stands at one place. -/
theorem eq_of_countP_le_one {α : Type} {p : α → Bool} {xs : List α} (h : xs.countP p ≤ 1) {a b : α}
    (ha : xs[i]? = some a) (hb : xs[j]? = some b) (hpa : p a = true) (hpb : p b = true) : i = j := by
  induction xs generalizing i j with
  | nil => cases ha
  | cons x xs ih =>
      rw [List.countP_cons] at h
      cases i with
      | zero =>
          cases j with
          | zero => rfl
          | succ j =>
              cases ha
              rw [if_pos hpa] at h
              rw [List.getElem?_cons_succ] at hb
              have := countP_pos_of_getElem? hb hpb
              omega
      | succ i =>
          cases j with
          | zero =>
              cases hb
              rw [if_pos hpb] at h
              rw [List.getElem?_cons_succ] at ha
              have := countP_pos_of_getElem? ha hpa
              omega
          | succ j =>
              rw [List.getElem?_cons_succ] at ha hb
              rw [ih (by omega) ha hb]

theorem Assigned.openBodies_pos (h : u.Assigned os) (hi : u.Unfinished os i) :
    0 < u.openBodies := by
  unfold openBodies
  rcases h.open_of_unfinished hi with ⟨r, hr, hopen⟩ | ⟨k, reader, -, hreader, hopen⟩
  · have := countP_pos_of_getElem? hr hopen
    omega
  · have := countP_pos_of_getElem? (p := fun r : BodyReader => !r.isDone) hreader hopen
    omega

theorem Assigned.unfinished_unique (h : u.Assigned os) (hone : u.openBodies ≤ 1)
    (hi : u.Unfinished os i) (hj : u.Unfinished os j) : i = j := by
  unfold openBodies at hone
  -- A body that nobody has taken and one with a reader would be two.
  rcases h.open_of_unfinished hi with ⟨r, hr, hopen⟩ | ⟨k, reader, hk, hreader, hopen⟩
  · rcases h.open_of_unfinished hj with ⟨r', hr', hopen'⟩ | ⟨k', reader', -, hreader', hopen'⟩
    · exact eq_of_countP_le_one (by omega) hr hr' hopen hopen'
    · have := countP_pos_of_getElem? hr hopen
      have := countP_pos_of_getElem? (p := fun r : BodyReader => !r.isDone) hreader' hopen'
      omega
  · rcases h.open_of_unfinished hj with ⟨r', hr', hopen'⟩ | ⟨k', reader', hk', hreader', hopen'⟩
    · have := countP_pos_of_getElem? hr' hopen'
      have := countP_pos_of_getElem? (p := fun r : BodyReader => !r.isDone) hreader hopen
      omega
    · obtain rfl := eq_of_countP_le_one (p := fun r : BodyReader => !r.isDone) (by omega)
        hreader hreader' hopen hopen'
      rw [hk] at hk'
      exact Option.some.inj hk'

variable [SecureTransport σ]

/-- **The reuse guard.** At every moment of every run, a body has one reader at most; an idle
connection has no unfinished response; there is never more than one of them; and while there
is one, a request, a response and an exchange are refused, with link and transport as before. -/
theorem reuse_guarded (l : Link σ) (calls : List Call) :
    ((start l).origins calls).Nodup ∧
    (((start l).run calls).link.phase = .idle →
      ∀ i, ¬ ((start l).run calls).Unfinished ((start l).origins calls) i) ∧
    (∀ i j, ((start l).run calls).Unfinished ((start l).origins calls) i →
      ((start l).run calls).Unfinished ((start l).origins calls) j → i = j) ∧
    ∀ i, ((start l).run calls).Unfinished ((start l).origins calls) i →
      ∃ why,
        (∀ request : Request, request.write ((start l).run calls).link
          = (.error (.notReusable why), ((start l).run calls).link)) ∧
        (∀ method capacity, Response.read ((start l).run calls).link method capacity
          = (.error (.notReusable why), ((start l).run calls).link)) ∧
        ∀ request capacity, ((start l).run calls).link.send request capacity
          = (.error (.notReusable why), ((start l).run calls).link) := by
  have hassigned : ((start l).run calls).Assigned ((start l).origins calls) :=
    (assigned_start l).run calls
  have hguarded : ((start l).run calls).Guarded := (guarded_start l).run calls
  have hbusy (i : Nat) (hi : ((start l).run calls).Unfinished ((start l).origins calls) i) :
      ((start l).run calls).link.phase ≠ .idle := by
    intro hidle
    have hpos := hassigned.openBodies_pos hi
    rw [hguarded.idle hidle] at hpos
    exact absurd hpos (Nat.lt_irrefl 0)
  refine ⟨hassigned.nodup, ?_, ?_, ?_⟩
  · intro hidle i hi
    exact hbusy i hi hidle
  · intro i j hi hj
    exact hassigned.unfinished_unique hguarded.atMostOne hi hj
  · intro i hi
    obtain ⟨why, hwhy⟩ := Connection.ensureReusable_of_not_idle (hbusy i hi)
    have hwrite (request : Request) : request.write ((start l).run calls).link
        = (.error (.notReusable why), ((start l).run calls).link) := by
      unfold Request.write
      rw [hwhy]
    refine ⟨why, hwrite, ?_, ?_⟩
    · intro method capacity
      unfold Response.read
      rw [hwhy]
    · intro request capacity
      unfold Link.send
      rw [hwrite]

def shortLink : Link Script := Script.connected [shortHead ++ ascii "hi"]

/-- A reader takes one byte of two, and then the connection is closed. -/
def halfRead : List Call := [.readResponse .get 256, .takeBody 0, .readBody 0 1, .close]

/-- The rest of the body still bars every request. -/
theorem reuse_guarded_halfRead :
    ((start shortLink).run halfRead).Unfinished ((start shortLink).origins halfRead) 0 ∧
    ∃ why, ∀ request : Request, request.write ((start shortLink).run halfRead).link
      = (.error (.notReusable why), ((start shortLink).run halfRead).link) := by
  have hframing : ((start shortLink).run halfRead).responses.map Response.framing = [.fixed 2] := by
    decide +kernel
  have hreaders : ∀ reader ∈ ((start shortLink).run halfRead).readers, reader.isDone = false := by
    decide +kernel
  have hopen : ((start shortLink).run halfRead).Unfinished
      ((start shortLink).origins halfRead) 0 := by
    obtain ⟨r, hr, hfixed⟩ := List.map_eq_singleton_iff.mp hframing
    refine ⟨r, by rw [hr]; rfl, by rw [hfixed]; rfl, ?_⟩
    intro k reader _ hreader
    exact hreaders reader (List.mem_of_getElem? hreader)
  refine ⟨hopen, ?_⟩
  obtain ⟨why, hwrite, -⟩ := (reuse_guarded shortLink halfRead).2.2.2 0 hopen
  exact ⟨why, hwrite⟩

end

end Usage

end HttpExchange
