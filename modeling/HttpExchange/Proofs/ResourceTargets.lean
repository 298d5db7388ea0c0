import HttpExchange.Proofs.FramingLines
import HttpExchange.Proofs.SingleUse
import HttpExchange.Proofs.UrlRequests

/-!
# Targets below a resource

A request that is sent through a resource has for its target the path of the URL and its own path
with one slash where they meet (`Bytes.Joins`). But the path of a URL keeps its query, and the
target is joined behind it: below a URL with a query the path of a request becomes a part of the
query, and the path of the target is that of the URL alone.

* `Bytes.pathPart_below`, `Bytes.queryPart_below`: the two parts of a target.
* `Resource.sends_below`: every way to send a request through a resource, on the wire.
* `Resource.targets_exact`: when the path of the target is the one path below the other.
-/

namespace HttpExchange

/-! ## Paths below a base -/

namespace Bytes

/-- A target before its first question mark. -/
def pathPart (target : Bytes) : Bytes := target.takeWhile (· != Byte.question)

/-- The first question mark of a target and what follows it. -/
def queryPart (target : Bytes) : Bytes := target.dropWhile (· != Byte.question)

/-- A path below a base. The base alone stands for no path; of two slashes where they meet one is
dropped, and where there is none one is added. -/
inductive Joins : Bytes → Bytes → Bytes → Prop
  | alone (base : Bytes) : Joins base [] base
  | dropped (base path : Bytes) :
    Joins (base ++ [Byte.slash]) (Byte.slash :: path) (base ++ Byte.slash :: path)
  | kept {base path : Bytes} : path ≠ [] →
    (base.getLast? = some Byte.slash ↔ path.head? ≠ some Byte.slash) → Joins base path (base ++ path)
  | added {base path : Bytes} : path ≠ [] → base.getLast? ≠ some Byte.slash →
    path.head? ≠ some Byte.slash → Joins base path (base ++ Byte.slash :: path)

/-- The path below the base. -/
def below (base path : Bytes) : Bytes :=
  if path = [] then base
  else (if base.getLast? = some Byte.slash then base.dropLast else base)
    ++ Byte.slash :: (if path.head? = some Byte.slash then path.tail else path)

variable {base path target front : Bytes}

theorem below_nil (base : Bytes) : below base [] = base := if_pos rfl

theorem below_cons (base : Bytes) (b : UInt8) (rest : Bytes) : below base (b :: rest)
    = (if base.getLast? = some Byte.slash then base.dropLast else base) ++ [Byte.slash]
      ++ (if b = Byte.slash then rest else b :: rest) := by
  simp [below]

theorem joins_below (base path : Bytes) : Joins base path (below base path) := by
  unfold below
  by_cases hpath : path = []
  · subst hpath
    exact .alone base
  · obtain ⟨b, rest, rfl⟩ := List.exists_cons_of_ne_nil hpath
    rw [if_neg hpath]
    by_cases hbase : base.getLast? = some Byte.slash
    · obtain ⟨front, rfl⟩ := List.getLast?_eq_some_iff.mp hbase
      rw [if_pos hbase, List.dropLast_concat]
      by_cases hhead : b = Byte.slash
      · subst hhead
        exact .dropped front rest
      · have hne : (b :: rest).head? ≠ some Byte.slash := fun h => hhead (Option.some.inj h)
        have hkept : Joins (front ++ [Byte.slash]) (b :: rest) (front ++ [Byte.slash] ++ b :: rest) :=
          .kept hpath ⟨fun _ => hne, fun _ => hbase⟩
        rw [if_neg hne]
        rwa [List.append_assoc] at hkept
    · rw [if_neg hbase]
      by_cases hhead : b = Byte.slash
      · subst hhead
        exact .kept hpath ⟨fun h => absurd h hbase, fun h => absurd rfl h⟩
      · have hne : (b :: rest).head? ≠ some Byte.slash := fun h => hhead (Option.some.inj h)
        rw [if_neg hne]
        exact .added hpath hbase hne

theorem joins_iff : Joins base path target ↔ target = below base path := by
  constructor
  · intro h
    unfold below
    cases h with
    | alone base => rfl
    | dropped base path => simp
    | @kept base path hpath hone =>
        rw [if_neg hpath]
        by_cases hbase : base.getLast? = some Byte.slash
        · obtain ⟨front, rfl⟩ := List.getLast?_eq_some_iff.mp hbase
          rw [if_pos hbase, if_neg (hone.mp hbase), List.dropLast_concat, List.append_assoc]
          rfl
        · have hhead : path.head? = some Byte.slash := not_not.mp fun h => hbase (hone.mpr h)
          obtain ⟨rest, rfl⟩ := List.head?_eq_some_iff.mp hhead
          rw [if_neg hbase, if_pos hhead, List.tail_cons]
    | added hpath hbase hhead => rw [if_neg hpath, if_neg hbase, if_neg hhead]
  · rintro rfl
    exact joins_below base path

/-- What stands in front of a base stays there. -/
theorem below_append (h : base ≠ []) (front path : Bytes) :
    below (front ++ base) path = front ++ below base path := by
  obtain ⟨last, hlast⟩ := Option.isSome_iff_exists.mp (List.getLast?_isSome.mpr h)
  have hboth : (front ++ base).getLast? = base.getLast? := by
    rw [List.getLast?_append, hlast, Option.some_or]
  unfold below
  rw [hboth, List.dropLast_append_of_ne_nil h]
  split
  · rfl
  · split
    · rw [List.append_assoc]
    · rw [List.append_assoc]

/-- Nothing is added to a base by no path, and by a slash below a slash. -/
theorem below_eq_self_iff : below base path = base ↔
    path = [] ∨ path = [Byte.slash] ∧ base.getLast? = some Byte.slash := by
  constructor
  · intro h
    by_cases hpath : path = []
    · exact .inl hpath
    · right
      unfold below at h
      rw [if_neg hpath] at h
      by_cases hbase : base.getLast? = some Byte.slash
      · obtain ⟨front, rfl⟩ := List.getLast?_eq_some_iff.mp hbase
        rw [if_pos hbase, List.dropLast_concat, List.append_cancel_left_eq, List.cons.injEq] at h
        by_cases hhead : path.head? = some Byte.slash
        · obtain ⟨rest, rfl⟩ := List.head?_eq_some_iff.mp hhead
          rw [if_pos hhead, List.tail_cons] at h
          exact ⟨by rw [h.2], hbase⟩
        · rw [if_neg hhead] at h
          exact absurd h.2 hpath
      · have hlength := congrArg List.length h
        rw [if_neg hbase, List.length_append, List.length_cons] at hlength
        omega
  · rintro (rfl | ⟨rfl, hbase⟩)
    · exact below_nil base
    · obtain ⟨front, rfl⟩ := List.getLast?_eq_some_iff.mp hbase
      simp [below]

/-! ## The parts of a target -/

theorem pathPart_append_queryPart (target : Bytes) : pathPart target ++ queryPart target = target :=
  List.takeWhile_append_dropWhile

theorem queryPart_eq_nil_iff : queryPart target = [] ↔ Byte.question ∉ target := by
  rw [queryPart, List.dropWhile_eq_nil_iff]
  constructor
  · intro h hmem
    exact absurd (h _ hmem) (by decide)
  · intro h b hb
    rw [bne_iff_ne]
    rintro rfl
    exact h hb

theorem question_not_mem_pathPart (target : Bytes) : Byte.question ∉ pathPart target := by
  intro hmem
  have hne := List.mem_takeWhile_imp hmem
  exact absurd hne (by decide)

theorem head?_queryPart (h : queryPart target ≠ []) :
    (queryPart target).head? = some Byte.question := by
  obtain ⟨b, rest, heq⟩ := List.exists_cons_of_ne_nil h
  have hnot := List.head?_dropWhile_not (· != Byte.question) target
  rw [← queryPart, heq] at hnot
  rw [heq]
  simpa using hnot

/-- The parts of a text in front of which no question mark stands. -/
theorem parts_append (h : Byte.question ∉ front) (target : Bytes) :
    pathPart (front ++ target) = front ++ pathPart target ∧
      queryPart (front ++ target) = queryPart target := by
  have hall : ∀ b ∈ front, (b != Byte.question) = true := by
    intro b hb
    rw [bne_iff_ne]
    rintro rfl
    exact h hb
  exact ⟨List.takeWhile_append_of_pos hall, List.dropWhile_append_of_pos hall⟩

/-- Below a base without a query, a path keeps its two parts. -/
theorem parts_below (hbase : queryPart base = []) (hpath : path = [] ∨ pathPart path ≠ []) :
    pathPart (below base path) = below (pathPart base) (pathPart path) ∧
      queryPart (below base path) = queryPart path := by
  have hwhole : pathPart base = base := by
    have happend := pathPart_append_queryPart base
    rwa [hbase, List.append_nil] at happend
  have hplain : Byte.question ∉ base := queryPart_eq_nil_iff.mp hbase
  rw [hwhole]
  rcases hpath with rfl | hpath
  · rw [below_nil]
    exact ⟨hwhole.trans (below_nil base).symm, hbase⟩
  · cases path with
    | nil => exact absurd rfl hpath
    | cons b rest =>
        have hb : Byte.question ∉ [b] := by
          intro hmem
          obtain rfl := List.mem_singleton.mp hmem
          exact hpath rfl
        obtain ⟨hpathPart, hqueryPart⟩ := parts_append hb rest
        -- Up to the slash where they meet there is no question mark.
        have hfront : Byte.question ∉
            (if base.getLast? = some Byte.slash then base.dropLast else base) ++ [Byte.slash] := by
          intro hmem
          rcases List.mem_append.mp hmem with hmem | hmem
          · split at hmem
            · exact hplain (List.mem_of_mem_dropLast hmem)
            · exact hplain hmem
          · exact absurd (List.mem_singleton.mp hmem) (by decide)
        have hpathPart : pathPart (b :: rest) = b :: pathPart rest := hpathPart
        have hqueryPart : queryPart (b :: rest) = queryPart rest := hqueryPart
        rw [hpathPart, below_cons, below_cons, (parts_append hfront _).1, (parts_append hfront _).2]
        by_cases hslash : b = Byte.slash
        · rw [if_pos hslash, if_pos hslash]
          exact ⟨rfl, hqueryPart.symm⟩
        · rw [if_neg hslash, if_neg hslash]
          exact ⟨congrArg _ hpathPart, rfl⟩

/-- Below a base with a query, a path becomes a part of that query. -/
theorem parts_below_query (hbase : queryPart base ≠ []) (path : Bytes) :
    pathPart (below base path) = pathPart base ∧
      queryPart (below base path) = below (queryPart base) path := by
  obtain ⟨query, hquery⟩ := List.head?_eq_some_iff.mp (head?_queryPart hbase)
  -- What is below a query begins with the same question mark.
  have hhead : ∃ more, below (queryPart base) path = Byte.question :: more := by
    rw [hquery]
    unfold below
    split
    · exact ⟨query, rfl⟩
    · split
      · rename_i hlast
        cases query with
        | nil => cases hlast
        | cons b rest => exact ⟨_, rfl⟩
      · exact ⟨_, rfl⟩
  obtain ⟨more, hmore⟩ := hhead
  have hbelow : below base path = pathPart base ++ below (queryPart base) path := by
    rw [← below_append hbase, pathPart_append_queryPart]
  obtain ⟨hpath, hrest⟩ := parts_append (question_not_mem_pathPart base)
    (below (queryPart base) path)
  rw [hbelow, hpath, hrest, hmore]
  exact ⟨List.append_nil _, rfl⟩

/-- **When the path of a target is one path below another**: there is no query between them, or
there is nothing to be put below the first. -/
theorem joins_pathPart_iff (hpath : path = [] ∨ pathPart path ≠ []) :
    Joins (pathPart base) (pathPart path) (pathPart (below base path)) ↔
      queryPart base = [] ∨ path = [] ∨
        pathPart path = [Byte.slash] ∧ (pathPart base).getLast? = some Byte.slash := by
  rw [joins_iff]
  by_cases hbase : queryPart base = []
  · exact ⟨fun _ => .inl hbase, fun _ => (parts_below hbase hpath).1⟩
  · have hnone : pathPart path = [] ↔ path = [] := by
      constructor
      · intro hnone
        exact hpath.resolve_right fun hne => hne hnone
      · rintro rfl
        rfl
    rw [(parts_below_query hbase path).1, eq_comm, below_eq_self_iff, hnone]
    exact ⟨.inr, fun h => h.resolve_left hbase⟩

end Bytes

/-! ## Requests through a resource -/

namespace Request

/-- The path that was set last. -/
def pathAfter (first : Bytes) (settings : List Setting) : Bytes :=
  settings.foldl (fun path setting => match setting with | .path path => path | _ => path) first

theorem path_applyAll (r : Request) (settings : List Setting) :
    (r.applyAll settings).path = pathAfter r.path settings := by
  induction settings generalizing r with
  | nil => rfl
  | cons setting settings ih =>
      refine (ih (r.apply setting)).trans ?_
      cases setting <;> rfl

/-- The target of a request below a base that is not empty. -/
theorem target_below {r : Request} {base : Bytes} (hbase : r.basePath = some base)
    (hne : base ≠ []) : r.target = Bytes.below base r.path := by
  unfold target Bytes.below
  rw [hbase, Option.getD_some]
  simp [hne]

end Request

/-! ### What a wire is sent -/

section

variable {σ : Type} [SecureTransport σ] {offer : σ → Bytes → Except TransportFailure Nat × σ}
  {S : Sink offer} {l l' : Link σ} {text : Bytes}

/-- Only form, write memory and wire of a link matter to what it was given. -/
theorem Sink.On.of_eq (h : S.On l text) (hform : l'.connection.form = l.connection.form)
    (hscratch : l'.scratch = l.scratch)
    (hwire : ∀ {sent}, S.accepted l.wire sent → S.accepted l'.wire sent) : S.On l' text := by
  obtain ⟨⟨form, phase, holdsLease⟩, scratch, wire, journal⟩ := l
  obtain ⟨⟨form', phase', holdsLease'⟩, scratch', wire', journal'⟩ := l'
  obtain rfl : form' = form := hform
  obtain rfl : scratch' = scratch := hscratch
  obtain ⟨hoffer, hhanded⟩ := h
  refine ⟨hoffer, ?_⟩
  cases form' with
  | plain => exact hwire hhanded
  | buffered buffer =>
      obtain ⟨hproper, sent, haccepted, hsplit⟩ := hhanded
      exact ⟨⟨hproper.pending_le, hproper.stored⟩, sent, hwire haccepted, hsplit⟩
  | secured session =>
      obtain ⟨hopen, hproper, sent, haccepted, hsplit⟩ := hhanded
      exact ⟨hopen, ⟨hproper.pending_le, hproper.stored⟩, sent, hwire haccepted, hsplit⟩

/-- Reading a response changes neither the form of a link nor its write memory. -/
theorem Response.form_read (l : Link σ) (method : Method) (capacity : Nat) :
    (Response.read l method capacity).2.connection.form = l.connection.form ∧
      (Response.read l method capacity).2.scratch = l.scratch := by
  have hholds := Head.holds_receive l capacity []
  unfold Response.read
  split
  · exact ⟨rfl, rfl⟩
  · have hform := congrArg Connection.form hholds.connection_eq
    split <;> rename_i heq <;> rw [heq] at hholds hform
    · exact ⟨hform, hholds.scratch_eq⟩
    · exact ⟨hform, hholds.scratch_eq⟩

/-- **A request that is sent on an idle link** gives it the whole of its head, whatever comes of
its body and of the response. -/
theorem Link.send_on (hidle : l.phase = .idle) (hon : S.On l text)
    (hreads : ∀ {w sent} n, S.accepted w sent →
      S.accepted (l.connection.form.receive w n).2 sent) (r : Request) (capacity : Nat) :
    ∃ sent, S.On (l.send r capacity).2 (text ++ r.headPieces.flatten ++ sent) := by
  by_cases hwritten : (r.write l).1 = .ok ()
  · obtain ⟨l₁, hwrite, hon₁, -, hkeeps⟩ :=
      Request.write_ok hidle hon ((Request.write_ok_iff hidle hon).mp hwritten)
    refine ⟨(r.body.map Request.framedBody).getD [], ?_⟩
    rw [List.append_assoc]
    have hsend : (l.send r capacity).2 = (Response.read l₁ r.method capacity).2 := by
      rw [Link.send, hwrite]
    rw [hsend]
    obtain ⟨hform, hscratch⟩ := Response.form_read l₁ r.method capacity
    refine hon₁.of_eq hform hscratch ?_
    intro sent haccepted
    exact Response.keeps_read (P := fun w => S.accepted w sent) (fun n hw => hreads n hw)
      hkeeps.receive_eq haccepted r.method capacity
  · obtain ⟨sent, hon'⟩ := Request.write_on (r := r) hidle hon
    refine ⟨sent, ?_⟩
    unfold Link.send
    rcases hwrite : r.write l with ⟨failure | value, l₁⟩
    · rw [hwrite] at hon'
      exact hon'
    · rw [hwrite] at hwritten
      exact absurd rfl hwritten

end

/-! ### Ways to send a request -/

namespace Resource

variable {σ : Type} [SecureTransport σ] {s : Resource} {method : Method} {path : Bytes}
  {l l' : Link σ}

/-- The link after a request was sent through a resource: by a builder, with the path that was set
last, or prepared as a whole. -/
inductive Sends (s : Resource) (method : Method) (path : Bytes) (l : Link σ) : Link σ → Prop
  | built {first : Bytes} {settings : List Request.Setting} (capacity : Nat) :
    Request.pathAfter first settings = path →
    Sends s method path l (((s.request method first).apply settings).send l capacity).2.2
  | prepared {request : Request} (capacity : Nat) :
    request.method = method → request.path = path →
    Sends s method path l (s.send l request capacity).2

/-- However it is sent, it is a request with that method and path below the path of the URL. -/
theorem Sends.exists_request (h : s.Sends method path l l') : ∃ r capacity,
    r.method = method ∧ r.path = path ∧ r.basePath = some s.url.path ∧
      l' = (l.send r capacity).2 := by
  cases h with
  | @built first settings capacity hpath =>
      let made : Request := { Request.make method first with host := some s.url.host }
      exact ⟨{ made.applyAll settings with basePath := some s.url.path }, capacity,
        made.method_applyAll settings, (made.path_applyAll settings).trans hpath, rfl, rfl⟩
  | @prepared request capacity hmethod hpath =>
      exact ⟨s.place request, capacity, hmethod, hpath, rfl, rfl⟩

variable {offer : σ → Bytes → Except TransportFailure Nat × σ} {S : Sink offer} {text : Bytes}

/-- **What goes out when a request is sent through a resource**: its method, and for its target the
path of the URL with its own path below it, in whichever way it is sent and whatever comes of it
then. -/
theorem sends_below (h : s.Sends method path l l') (hroot : s.url.path ≠ [])
    (hidle : l.phase = .idle) (hon : S.On l text)
    (hreads : ∀ {w sent} n, S.accepted w sent →
      S.accepted (l.connection.form.receive w n).2 sent) :
    ∃ sent, S.On l' (text ++ (method.token ++ Byte.sp :: (Bytes.below s.url.path path
      ++ Byte.sp :: ascii "HTTP/1.1") ++ Bytes.crlf ++ sent)) := by
  obtain ⟨r, capacity, rfl, rfl, hbase, rfl⟩ := h.exists_request
  obtain ⟨sent, hsent⟩ := Link.send_on hidle hon hreads r capacity
  rw [Request.flatten_headPieces, Request.target_below hbase hroot] at hsent
  refine ⟨r.sentHeaders.flatMap Header.text ++ Bytes.crlf ++ sent, ?_⟩
  simpa only [List.append_assoc] using hsent

/-- **Where the path of a request ends up below a URL.** For every URL that a client has opened a
resource for, and every path that is empty or has more than a query: however a request with that
path is sent on the connection when it is idle, its target is the path of the URL, query included,
with the path of the request joined behind it. The path of that target is the one path below the
other exactly where the URL has no query, or where the path of the request adds nothing to that of
the URL. Without a query in the URL the target keeps the query of the request; with one, the whole
path of the request becomes a part of the query. -/
theorem targets_exact {client : Client} {network : Network σ} {address : Bytes} {url : Url}
    {setup : Client.Setup σ} (hreach : client.reach network address = (.ok url, setup))
    (hpath : path = [] ∨ Bytes.pathPart path ≠ []) :
    (∀ {offer : σ → Bytes → Except TransportFailure Nat × σ} {S : Sink offer} {text : Bytes}
      {method : Method} {l l' : Link σ}, (Resource.mk url).Sends method path l l' → l.phase = .idle → S.On l text →
      (∀ {w sent} n, S.accepted w sent → S.accepted (l.connection.form.receive w n).2 sent) →
      ∃ target sent, url.path.Joins path target ∧
        S.On l' (text ++ (method.token ++ Byte.sp :: (target ++ Byte.sp :: ascii "HTTP/1.1")
          ++ Bytes.crlf ++ sent))) ∧
    ∀ target, url.path.Joins path target →
      ((Bytes.pathPart url.path).Joins (Bytes.pathPart path) (Bytes.pathPart target) ↔
        Bytes.queryPart url.path = [] ∨ path = [] ∨
          Bytes.pathPart path = [Byte.slash] ∧
            (Bytes.pathPart url.path).getLast? = some Byte.slash) ∧
      (Bytes.queryPart url.path = [] → Bytes.queryPart target = Bytes.queryPart path) ∧
      (Bytes.queryPart url.path ≠ [] → Bytes.pathPart target = Bytes.pathPart url.path ∧
        (Bytes.queryPart url.path).Joins path (Bytes.queryPart target)) := by
  have hexits := client.exits_reach network address
  rw [hreach] at hexits
  have hroot : url.path ≠ [] := by
    intro hnil
    have hslash := (Url.harmless_of_parse hexits.kind_eq.1).rooted
    rw [hnil] at hslash
    cases hslash
  constructor
  · intro offer S text method l l' hsends hidle hon hreads
    obtain ⟨sent, hsent⟩ := sends_below hsends hroot hidle hon hreads
    exact ⟨_, sent, Bytes.joins_below _ _, hsent⟩
  · intro target hjoins
    obtain rfl := Bytes.joins_iff.mp hjoins
    refine ⟨Bytes.joins_pathPart_iff hpath, fun hnone => (Bytes.parts_below hnone hpath).2, ?_⟩
    intro hquery
    obtain ⟨hpathPart, hqueryPart⟩ := Bytes.parts_below_query hquery path
    exact ⟨hpathPart, Bytes.joins_iff.mpr hqueryPart⟩

/-- A resource for a URL with a query. -/
def keyed : Resource := ⟨⟨.http, ascii "example.com", 80, ascii "/api?key=1"⟩⟩

/-- The path of a request below it goes out as a part of the query. -/
theorem targets_exact_keyed :
    Url.parse (ascii "http://example.com/api?key=1") = .ok keyed.url ∧
    (∃ sent, (((keyed.request .get (ascii "/")).apply [.path (ascii "/users")]).send
      ⟨.plain, .empty, Script.empty, []⟩ 64).2.2.wire.taken
        = ascii "GET /api?key=1/users HTTP/1.1\r\n" ++ sent) ∧
    ¬ (ascii "/api").Joins (ascii "/users")
      (Bytes.pathPart (ascii "/api?key=1/users")) := by
  let network : Network Script :=
    ⟨fun _ => .ok (.quad 127 0 0 1), fun _ _ => .ok Script.empty⟩
  have hparse : Url.parse (ascii "http://example.com/api?key=1") = .ok keyed.url := by
    decide +kernel
  have hreach : Client.reach ⟨none, .empty⟩ network (ascii "http://example.com/api?key=1")
      = (.ok keyed.url, Client.connect ⟨none, .empty⟩ network keyed.url) := by
    rw [Client.reach, hparse]
    rfl
  have hpath : Bytes.pathPart (ascii "/users") ≠ [] := by decide +kernel
  obtain ⟨hsent, hparts⟩ := targets_exact hreach (.inr hpath)
  have hon : Script.sink.On ⟨.plain, .empty, Script.empty, []⟩ [] :=
    ⟨rfl, ⟨rfl, rfl, by decide⟩, rfl, rfl⟩
  have hjoins : keyed.url.path.Joins (ascii "/users") (ascii "/api?key=1/users") :=
    Bytes.joins_iff.mpr (by decide +kernel)
  refine ⟨hparse, ?_, ?_⟩
  · -- Nothing is pending on a plain connection.
    have hform : (((keyed.request .get (ascii "/")).apply [.path (ascii "/users")]).send
        ⟨.plain, .empty, Script.empty, []⟩ 64).2.2.connection.form = .plain := by decide +kernel
    have hsends : keyed.Sends .get (ascii "/users") ⟨.plain, .empty, Script.empty, []⟩
        (((keyed.request .get (ascii "/")).apply [.path (ascii "/users")]).send
          ⟨.plain, .empty, Script.empty, []⟩ 64).2.2 := .built 64 rfl
    obtain ⟨target, sent, htarget, hhanded⟩ := hsent hsends rfl hon Script.sink_read
    obtain rfl : target = ascii "/api?key=1/users" :=
      (Bytes.joins_iff.mp htarget).trans (Bytes.joins_iff.mp hjoins).symm
    refine ⟨sent, ?_⟩
    have haccepted := hhanded.handed
    unfold Sink.Handed at haccepted
    rw [hform] at haccepted
    obtain ⟨-, -, htaken⟩ := haccepted
    rw [htaken]
    rfl
  · intro hparted
    have hexact := (hparts _ hjoins).1.mp hparted
    revert hexact
    decide +kernel

end Resource

end HttpExchange
