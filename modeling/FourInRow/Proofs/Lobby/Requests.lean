import FourInRow.Proofs.Lobby.Prompt

/-!
# Who is asked for a turn

During a match the members are asked for their turns one after another, in rotation, and nobody is
asked again before the turn has been taken.  Requests to members that do not listen any more are
lost.  `Lobby.Requested` says how the requests since the beginning of a match stand to the match.

Main results:

- Theorem `Rostered.map_eq`: if everybody listens the requests are just the turns in rotation.
- Theorem `Requested.moved`: by a turn that succeeds the next player is asked.
- Theorem `Advances.requested`: whatever happens to a lobby in which a match goes on.
-/

namespace FourInRow

/-- Is a message a request for a turn? -/
def Message.isRequest : Message → Bool
  | .turnRequest _ => true
  | _ => false

/-- Does a message say that the client's own piece has landed? -/
def Message.isSuccess : Message → Bool
  | .turnResult .success _ => true
  | _ => false

namespace Mail

/-- The requests for turns among some mail: who is asked, and as which player. -/
def requests (mail : Mail) : List (ConnectionId × Player) :=
  mail.filterMap fun e =>
    match e.2 with
    | .turnRequest player => some (e.1, player)
    | _ => none

@[simp] theorem requests_nil : requests [] = [] := rfl

@[simp] theorem requests_append (mail mail' : Mail) :
    requests (mail ++ mail') = requests mail ++ requests mail' :=
  List.filterMap_append

/-- Mail about other things asks nobody. -/
theorem OfKinds.requests_eq_nil {kinds : List Wire.Kind} {mail : Mail} (h : mail.OfKinds kinds)
    (hkinds : .takeTurn ∉ kinds) : mail.requests = [] := by
  refine List.filterMap_eq_nil_iff.2 fun e he => ?_
  have hkind := h e he
  split
  · next hrequest =>
      rw [hrequest] at hkind
      exact absurd hkind hkinds
  · rfl

end Mail

namespace Lobby

/-! ## Requests in rotation -/

/-- An announcement that says nothing to the others is for one member only. -/
theorem tellAll_eq {l : Lobby} (hs : l.Sound) {p : Peer} (hp : p ∈ l.members)
    {announce : Peer → Mail} (hothers : ∀ q ∈ l.members, q ≠ p → announce q = []) :
    l.tellAll announce = announce p := by
  rcases exists_split hs.nodup hp with ⟨before, after, hsplit, hother⟩
  have hquiet : ∀ qs : List Peer, (∀ q ∈ qs, q ∈ before ++ after) → qs.flatMap announce = [] := by
    refine fun qs hqs => List.flatMap_eq_nil_iff.2 fun q hq => hothers q ?_ ?_
    · rw [hsplit]
      rcases List.mem_append.1 (hqs q hq) with hq | hq
      · exact List.mem_append_left _ hq
      · exact List.mem_append_right _ (List.mem_cons_of_mem _ hq)
    · rintro rfl
      exact hother q (hqs q hq) rfl
  rw [tellAll, hsplit, List.flatMap_append, List.flatMap_cons,
    hquiet before fun q hq => List.mem_append_left _ hq,
    hquiet after fun q hq => List.mem_append_right _ hq, List.nil_append, List.append_nil]

/-- Only the member with the given number is asked. -/
theorem requestTurn_eq {l : Lobby} (hs : l.Sound) (hn : l.Numbered) {p : Peer}
    (hp : p ∈ l.members) : l.requestTurn p.player = p.tell (.turnRequest p.player) := by
  rw [requestTurn, tellAll_eq hs hp fun q hq hne => ?_]
  · exact if_pos rfl
  · exact if_neg fun hplayer => hne (hn.eq_of_player_eq hs hq hp hplayer.symm)

/-- Only the member with the given number hears of a turn that has failed. -/
theorem announceTurn_eq {l : Lobby} (hs : l.Sound) (hn : l.Numbered) {p : Peer}
    (hp : p ∈ l.members) (column : UInt8) {result : TurnResult} (hne : result ≠ .success) :
    l.announceTurn p.player column result = p.tell (.turnResult result column) := by
  rw [announceTurn, tellAll_eq hs hp fun q hq hother => ?_]
  · exact if_pos rfl
  · rw [Peer.turnTaken, if_neg fun hplayer => hother (hn.eq_of_player_eq hs hq hp hplayer.symm),
      if_neg hne]

theorem requests_requestTurn {l : Lobby} (hs : l.Sound) (hn : l.Numbered) {p : Peer}
    (hp : p ∈ l.members) :
    (l.requestTurn p.player).requests = if p.listening then [(p.id, p.player)] else [] := by
  rw [requestTurn_eq hs hn hp, Peer.tell]
  split <;> rfl

/-- Does a member with the given number listen? -/
def reaches (l : Lobby) (player : Player) : Bool :=
  l.members.any fun p => p.listening && p.player == player

theorem reaches_iff {l : Lobby} {player : Player} :
    l.reaches player = true ↔ ∃ p ∈ l.members, p.listening = true ∧ p.player = player := by
  simp [reaches]

theorem reaches_player {l : Lobby} (hs : l.Sound) (hn : l.Numbered) {p : Peer}
    (hp : p ∈ l.members) : l.reaches p.player = p.listening := by
  rw [Bool.eq_iff_iff, reaches_iff]
  constructor
  · rintro ⟨q, hq, hlistening, hplayer⟩
    rw [← hn.eq_of_player_eq hs hq hp hplayer]
    exact hlistening
  · exact fun hlistening => ⟨p, hp, hlistening, rfl⟩

/-- Are the members asked for the given turns one after another, those excepted that do not listen
any more? -/
structure Rostered (l : Lobby) (turns : List Player) (asked : List (ConnectionId × Player)) :
    Prop where
  /-- Only the member is asked whose turn it is. -/
  addressed : ∀ e ∈ asked, ∃ p ∈ l.members, p.id = e.1 ∧ p.player = e.2
  /-- It is asked once for each of its turns, in the order of turns. -/
  sublist : (asked.map Prod.snd).Sublist turns
  /-- No request is missing to those who listen. -/
  filter_eq : (asked.map Prod.snd).filter l.reaches = turns.filter l.reaches

theorem rostered_nil (l : Lobby) : l.Rostered [] [] :=
  ⟨fun _ he => (List.not_mem_nil he).elim, .slnil, rfl⟩

/-- One more member is asked. -/
theorem Rostered.ask {l : Lobby} {turns : List Player} {asked : List (ConnectionId × Player)}
    (h : l.Rostered turns asked) (hs : l.Sound) (hn : l.Numbered) {p : Peer} (hp : p ∈ l.members) :
    l.Rostered (turns ++ [p.player]) (asked ++ (l.requestTurn p.player).requests) := by
  have hreaches := reaches_player hs hn hp
  rw [requests_requestTurn hs hn hp]
  cases hlistening : p.listening with
  | true =>
      rw [hlistening] at hreaches
      refine ⟨fun e he => ?_, ?_, ?_⟩
      · rcases List.mem_append.1 he with hold | hnew
        · exact h.addressed e hold
        · rw [List.mem_singleton.1 hnew]
          exact ⟨p, hp, rfl, rfl⟩
      · rw [List.map_append]
        exact h.sublist.append_right _
      · rw [List.map_append, List.filter_append, List.filter_append, h.filter_eq]
        rfl
  | false =>
      rw [hlistening] at hreaches
      refine ⟨fun e he => ?_, ?_, ?_⟩
      · exact h.addressed e (by simpa using he)
      · simpa using h.sublist.trans (List.sublist_append_left turns [p.player])
      · simpa [List.filter_append, hreaches] using h.filter_eq

/-- Requests stand as before where members remain, though some do not listen any more. -/
theorem Rostered.of_members {l l' : Lobby} {turns : List Player}
    {asked : List (ConnectionId × Player)} (h : l.Rostered turns asked)
    (hmembers : ∀ p ∈ l.members, ∃ p' ∈ l'.members, p'.id = p.id ∧ p'.player = p.player)
    (hreaches : ∀ player, l'.reaches player = true → l.reaches player = true) :
    l'.Rostered turns asked := by
  refine ⟨fun e he => ?_, h.sublist, ?_⟩
  · rcases h.addressed e he with ⟨p, hp, hid, hplayer⟩
    rcases hmembers p hp with ⟨p', hp', hid', hplayer'⟩
    exact ⟨p', hp', hid'.trans hid, hplayer'.trans hplayer⟩
  · have hsub : ∀ players : List Player,
        (players.filter l.reaches).filter l'.reaches = players.filter l'.reaches := by
      intro players
      rw [List.filter_filter]
      refine List.filter_congr fun player _ => ?_
      rw [Bool.eq_iff_iff, Bool.and_eq_true]
      exact ⟨fun h => h.1, fun h => ⟨h, hreaches player h⟩⟩
    rw [← hsub, h.filter_eq, hsub]

/-- If everybody listens the requests are just the turns. -/
theorem Rostered.map_eq {l : Lobby} {turns : List Player} {asked : List (ConnectionId × Player)}
    (h : l.Rostered turns asked) (hturns : ∀ player ∈ turns, ∃ p ∈ l.members, p.player = player)
    (hlisten : ∀ p ∈ l.members, p.listening = true) : asked.map Prod.snd = turns := by
  have hreaches : ∀ player ∈ turns, l.reaches player = true := by
    intro player hplayer
    rcases hturns player hplayer with ⟨p, hp, rfl⟩
    exact reaches_iff.2 ⟨p, hp, hlisten p hp, rfl⟩
  have heq := h.filter_eq
  rw [List.filter_eq_self.2 hreaches,
    List.filter_eq_self.2 fun player hplayer => hreaches player (h.sublist.subset hplayer)] at heq
  exact heq

/-! ## The requests of a match -/

/-- The players whose turn it has been in a match up to now, in order. -/
def turnOrder (l : Lobby) (first : Player) (game : Match) : List Player :=
  (List.range (game.turns + 1)).map (Match.rota (UInt8.ofNat l.capacity) first)

/-- How the mail since the beginning of the running match stands to the match. -/
structure Requested (l : Lobby) (game : Match) (first : Player) (mail : Mail) : Prop where
  /-- The match has come about from the one that was announced. -/
  stems : game.Stems (UInt8.ofNat l.capacity) first l.columns l.rows
  /-- The mail begins with the announcement, and there is no other one. -/
  announced : ∀ p ∈ l.members, p.listening = true → ∃ more,
    mail.messagesTo p.id = l.announcement first :: more ∧ ∀ m ∈ more, m.kind ≠ .gameStart
  /-- The members have been asked in rotation. -/
  rostered : l.Rostered (l.turnOrder first game) mail.requests
  /-- All requests but the last one are settled. -/
  balanced : ∀ p ∈ l.members, p.listening = true →
    (mail.messagesTo p.id).countP Message.isRequest =
      (mail.messagesTo p.id).countP Message.isSuccess + if game.current = p.player then 1 else 0

theorem countP_request (p : Peer) (player : Player) :
    (p.request player).countP Message.isRequest = (if player = p.player then 1 else 0) ∧
      (p.request player).countP Message.isSuccess = 0 := by
  unfold Peer.request
  split <;> simp [Message.isRequest, Message.isSuccess]

theorem countP_news (p : Peer) (player : Player) (column : UInt8) :
    [p.news player column].countP Message.isRequest = 0 ∧
      [p.news player column].countP Message.isSuccess = (if player = p.player then 1 else 0) := by
  unfold Peer.news
  split <;> simp [Message.isRequest, Message.isSuccess]

/-- In a full lobby that a match can be played in, every player that has a turn is there. -/
theorem exists_member_rota {l : Lobby} (hs : l.Sound) (hn : l.Numbered) (hplayable : l.Playable)
    (hfull : l.members.length = l.capacity) (first : Player) (turns : Nat) :
    ∃ p ∈ l.members, p.player = Match.rota (UInt8.ofNat l.capacity) first turns := by
  have hle := hs.capacity_le
  have hcapacity : (UInt8.ofNat l.capacity).toNat = l.capacity :=
    UInt8.toNat_ofNat_of_lt' (by simp only [UInt8.size]; omega)
  have hpos : 0 < (UInt8.ofNat l.capacity).toNat := hcapacity.symm ▸ hplayable.capacity_pos
  rcases Match.rota_mem hpos first turns with ⟨hne, hrota⟩
  rw [hcapacity] at hrota
  exact hn.exists_member hs hfull hne hrota

/-- If everybody listens the requests are those for the turns of the match. -/
theorem Requested.map_eq {l : Lobby} {game : Match} {first : Player} {mail : Mail}
    (h : l.Requested game first mail) (hs : l.Sound) (hn : l.Numbered) (hplayable : l.Playable)
    (hfull : l.members.length = l.capacity) (hlisten : ∀ p ∈ l.members, p.listening = true) :
    mail.requests.map Prod.snd = l.turnOrder first game := by
  refine h.rostered.map_eq (fun player hplayer => ?_) hlisten
  rcases List.mem_map.1 hplayer with ⟨k, -, rfl⟩
  exact exists_member_rota hs hn hplayable hfull first k

/-- When a match begins the first player is asked. -/
theorem requested_withMatch {l : Lobby} (hs : l.Sound) (hn : l.Numbered) (hplayable : l.Playable)
    (hfull : l.members.length = l.capacity) {first : Player} {size : Board.Size}
    (hsize : Board.Size.check l.columns l.rows = .ok size)
    (hfirst : (Match.start (UInt8.ofNat l.capacity) first size).current = first) :
    (l.withMatch first size).Requested (Match.start (UInt8.ofNat l.capacity) first size) first
      (l.openingMail first size) := by
  rcases dimensions_of_check hsize with ⟨hcolumns, hrows⟩
  have hstems := Match.stems_start hfirst
  have hrota := hstems.current_eq (hplayable.minPlayers_le hs)
  rw [hfirst] at hrota
  rw [hcolumns, hrows] at hstems
  obtain ⟨p₁, hp₁, rfl⟩ : ∃ p ∈ l.members, p.player = first := by
    rcases exists_member_rota hs hn hplayable hfull first 0 with ⟨p, hp, hplayer⟩
    exact ⟨p, hp, hplayer.trans hrota.symm⟩
  have htold (p : Peer) (hp : p ∈ l.members) (hlistening : p.listening = true) :
      (l.openingMail p₁.player size).messagesTo p.id =
        l.announcement p₁.player :: p.request p₁.player := by
    rw [messagesTo_openingMail hs.nodup _ _ hp, Peer.hears, if_pos hlistening, hcolumns, hrows]
    rfl
  refine ⟨hstems, fun p hp hlistening => ?_, ?_, fun p hp hlistening => ?_⟩
  · exact ⟨_, htold p hp hlistening, p.kind_of_mem_request_ne _⟩
  · have hopening : (l.openingMail p₁.player size).requests =
        (l.requestTurn p₁.player).requests := by
      have hkinds : (l.tellAll fun p => p.matchBegins (UInt8.ofNat l.capacity) size.columns
          size.rows p₁.player).OfKinds [.gameStart] := .flatMap fun p => p.ofKinds_tell _
      rw [openingMail, Mail.requests_append, hkinds.requests_eq_nil (by decide), List.nil_append]
    have horder : (l.withMatch p₁.player size).turnOrder p₁.player
        (Match.start (UInt8.ofNat l.capacity) p₁.player size) = [] ++ [p₁.player] :=
      congrArg (fun player => [player]) hrota.symm
    rw [hopening, horder]
    exact (((rostered_nil l).ask hs hn hp₁).of_members (fun p hp => ⟨p, hp, rfl, rfl⟩)
      fun _ h => h)
  · rcases countP_request p p₁.player with ⟨hrequest, hsuccess⟩
    rw [htold p hp hlistening, List.countP_cons_of_neg (by simp [announcement, Message.isRequest]),
      List.countP_cons_of_neg (by simp [announcement, Message.isSuccess]), hrequest, hsuccess,
      hfirst, Nat.zero_add]

/-- By a turn that succeeds the next player is asked. -/
theorem Requested.moved {l : Lobby} {game game' : Match} {accepting : Bool} {first : Player}
    {past : Mail} (h : l.Requested game first past) (hs : l.Sound) (hn : l.Numbered)
    (hplayable : l.Playable) (hphase : l.phase = .playing game accepting) {player : Player}
    {column : UInt8} (hturned : Match.Turned game player column game' .success) :
    Requested { l with phase := .playing game' accepting } game' first
      (past ++ (l.announceTurn player column .success ++ l.requestTurn game'.current)) := by
  have hstems := h.stems.turn hturned
  have hcurrent := hstems.current_eq (hplayable.minPlayers_le hs)
  obtain ⟨rfl, hturns⟩ : player = game.current ∧ game'.turns = game.turns + 1 := by
    cases hturned with
    | success hgoing hmover => exact ⟨hmover, rfl⟩
  have hfull := (hs.running game accepting hphase).full
  obtain ⟨q, hq, hqplayer⟩ : ∃ q ∈ l.members, q.player = game'.current := by
    rw [hcurrent]
    exact exists_member_rota hs hn hplayable hfull first game'.turns
  let mail := l.announceTurn game.current column .success ++ l.requestTurn game'.current
  have htold (p : Peer) (hp : p ∈ l.members) (hlistening : p.listening = true) :
      (past ++ mail).messagesTo p.id = past.messagesTo p.id ++
        ([p.news game.current column] ++ p.request game'.current) := by
    rw [Mail.messagesTo_append, Mail.messagesTo_append, messagesTo_success hs.nodup _ _ hp,
      messagesTo_requestTurn hs.nodup _ hp, Peer.hears, Peer.hears, if_pos hlistening,
      if_pos hlistening]
  refine ⟨hstems, fun p hp hlistening => ?_, ?_, fun p hp hlistening => ?_⟩
  · rcases h.announced p hp hlistening with ⟨more, hmore, hnone⟩
    refine ⟨more ++ ([p.news game.current column] ++ p.request game'.current), ?_, fun m hm => ?_⟩
    · rw [htold p hp hlistening, hmore]
      rfl
    · rcases List.mem_append.1 hm with hm | hm
      · exact hnone m hm
      · rcases List.mem_append.1 hm with hm | hm
        · rw [List.mem_singleton.1 hm, Peer.news]
          split <;> exact Wire.Kind.noConfusion
        · exact p.kind_of_mem_request_ne _ m hm
  · have horder : Lobby.turnOrder { l with phase := .playing game' accepting } first game' =
        l.turnOrder first game ++ [q.player] := by
      rw [hqplayer, hcurrent, turnOrder, hturns, List.range_succ, List.map_append]
      rfl
    rw [Mail.requests_append, Mail.requests_append,
      (ofKinds_announceTurn l game.current column .success).requests_eq_nil (by decide),
      List.nil_append, horder, ← hqplayer]
    exact (h.rostered.ask hs hn hq).of_members (fun p hp => ⟨p, hp, rfl, rfl⟩) fun _ h => h
  · rcases countP_news p game.current column with ⟨hrequest, hsuccess⟩
    rcases countP_request p game'.current with ⟨hrequest', hsuccess'⟩
    rw [htold p hp hlistening]
    simp only [List.countP_append, hrequest, hsuccess, hrequest', hsuccess',
      h.balanced p hp hlistening]
    omega

/-- A turn that fails asks nobody and settles nothing. -/
theorem Requested.rejected {l : Lobby} {game : Match} {first : Player} {past : Mail}
    (h : l.Requested game first past) (hs : l.Sound) (player : Player) (column : UInt8)
    {result : TurnResult} (hne : result ≠ .success) :
    l.Requested game first (past ++ l.announceTurn player column result) := by
  have htold (p : Peer) (hp : p ∈ l.members) (hlistening : p.listening = true) :
      (past ++ l.announceTurn player column result).messagesTo p.id =
        past.messagesTo p.id ++ if player = p.player then [.turnResult result column] else [] := by
    rw [Mail.messagesTo_append, messagesTo_failure hs.nodup _ _ hne hp, Peer.hears,
      if_pos hlistening]
  refine ⟨h.stems, fun p hp hlistening => ?_, ?_, fun p hp hlistening => ?_⟩
  · rcases h.announced p hp hlistening with ⟨more, hmore, hnone⟩
    refine ⟨more ++ if player = p.player then [.turnResult result column] else [], ?_,
      fun m hm => ?_⟩
    · rw [htold p hp hlistening, hmore]
      rfl
    · rcases List.mem_append.1 hm with hm | hm
      · exact hnone m hm
      · split at hm
        · rw [List.mem_singleton.1 hm]
          exact Wire.Kind.noConfusion
        · cases hm
  · rw [Mail.requests_append, (ofKinds_announceTurn l player column result).requests_eq_nil
      (by decide), List.append_nil]
    exact h.rostered
  · rw [htold p hp hlistening, List.countP_append, List.countP_append, h.balanced p hp hlistening]
    have hsuccess : Message.isSuccess (.turnResult result column) = false := by
      cases result with
      | success => exact absurd rfl hne
      | _ => rfl
    by_cases hplayer : player = p.player
    · simp [hplayer, hsuccess, Message.isRequest]
    · simp [hplayer]

/-- A turn that fails in a match is answered, and nothing else happens. -/
theorem turn_rejected {l : Lobby} (hs : l.Sound) (hn : l.Numbered) {game game' : Match}
    {accepting : Bool} (hphase : l.phase = .playing game accepting) {p : Peer}
    (hp : p ∈ l.members) {column : UInt8} {result : TurnResult}
    (hturn : game.turn p.player column = .ok (game', result)) (hne : result ≠ .success) :
    l.turn p.id column = (l, p.tell (.turnResult result column)) := by
  obtain rfl := (Match.Turned.of_turn hturn).eq_of_ne_success hne
  have hmember := (member?_eq_some_iff hs.nodup).2 ⟨hp, rfl⟩
  have hgoing := (hs.running game' accepting hphase).going
  have heq : l.turn p.id column = (l, l.announceTurn p.player column result) := by
    simp only [turn, hmember, hphase, hturn, hgoing, hne, if_false]
    rw [← hphase]
    rfl
  rw [heq, announceTurn_eq hs hn hp column hne]

/-- Whoever stops listening is asked no more. -/
theorem Requested.hangUp {l : Lobby} {game : Match} {first : Player} {past : Mail}
    (h : l.Requested game first past) (id : ConnectionId) :
    (l.hangUp id).Requested game first past := by
  have hfixed := fixed_hangUp l id
  refine ⟨?_, fun p hp hlistening => ?_, ?_, fun p hp hlistening => ?_⟩
  · rw [hfixed.capacity_eq]
    exact h.stems
  · rw [announcement_of_fixed hfixed]
    exact h.announced p (mem_of_listening_hangUp hp hlistening) hlistening
  · rw [turnOrder, hfixed.capacity_eq]
    refine h.rostered.of_members (fun p hp => ?_) fun player hreaches => ?_
    · rw [members_hangUp]
      refine ⟨_, List.mem_map_of_mem hp, ?_⟩
      split <;> exact ⟨rfl, rfl⟩
    · rcases reaches_iff.1 hreaches with ⟨p, hp, hlistening, hplayer⟩
      exact reaches_iff.2 ⟨p, mem_of_listening_hangUp hp hlistening, hlistening, hplayer⟩
  · exact h.balanced p (mem_of_listening_hangUp hp hlistening) hlistening

/-- When a match begins, or goes on, the mail since its beginning stands to it as it should, and all
members remain. -/
theorem Advances.requested {l l' : Lobby} {mail : Mail} (ha : l.Advances mail l') (hs : l.Sound)
    (hn : l.Numbered) (hplayable : l.Playable) {game' : Match} {accepting' : Bool}
    (hphase' : l'.phase = .playing game' accepting') :
    l'.members.map Peer.id = l.members.map Peer.id ∧
      ((∃ first, l'.Requested game' first mail) ∨
        ∃ game accepting, l.phase = .playing game accepting ∧
          ∀ first past, l.Requested game first past → l'.Requested game' first (past ++ mail)) := by
  have hsame (hphase : l.phase = .playing game' accepting') : ∃ game accepting,
      l.phase = .playing game accepting ∧ ∀ first past, l.Requested game first past →
        l.Requested game' first (past ++ []) := by
    refine ⟨game', accepting', hphase, fun first past h => ?_⟩
    rw [List.append_nil]
    exact h
  cases ha with
  | same => exact ⟨rfl, Or.inr (hsame hphase')⟩
  | seated hseat =>
      have hphase := (hs.hasFreeSeat_iff.1 (seat_eq_some_iff.1 hseat).1).1
      rcases seat_eq_some_iff.1 hseat with ⟨-, i, -, -, rfl, -⟩
      rw [hphase] at hphase'
      cases hphase'
  | @readied _ _ id _ _ hreadied =>
      refine ⟨map_id_of_lineup_eq hreadied.lineup_eq, ?_⟩
      cases hreadied with
      | ignored => exact Or.inr (hsame hphase')
      | noted hidle => exact absurd hphase' (phase_ne_of_idle hidle _ _)
      | unplayable hidle => exact absurd hphase' (phase_ne_of_idle hidle _ _)
      | @begun p size hidle hp hready hall hfull hsize =>
          have hplayable' : (l.noteReady id).Playable := by
            refine ⟨?_, hplayable.exists_size⟩
            rw [capacity_noteReady]
            exact hplayable.seats
          have hfull' : (l.noteReady id).members.length = (l.noteReady id).capacity := by
            rw [length_members_of_lineup_eq (lineup_noteReady l id), capacity_noteReady,
              ← hs.players_eq]
            exact beq_iff_eq.1 hfull
          cases hphase'
          exact Or.inl ⟨_, requested_withMatch (hs.noteReady hidle hp hready)
            (hn.of_lineup_eq (lineup_noteReady l id)) hplayable' hfull' hsize
            (current_of_begun hs hp _ size)⟩
  | turned hturned =>
      refine ⟨map_id_of_lineup_eq hturned.lineup_eq, ?_⟩
      cases hturned with
      | stranger => exact Or.inr (hsame hphase')
      | idle hp hidle => exact absurd hphase' (phase_ne_of_idle hidle _ _)
      | rejected hp hphase hgame hne =>
          rw [hphase] at hphase'
          cases hphase'
          exact Or.inr ⟨_, _, hphase, fun first past h => h.rejected hs _ _ hne⟩
      | moved hp hphase hgame =>
          cases hphase'
          exact Or.inr ⟨_, _, hphase, fun first past h => h.moved hs hn hplayable hphase hgame⟩
      | finished => cases hphase'
  | left hleft =>
      cases hleft with
      | idle hp hidle => exact absurd hphase' (phase_ne_of_idle hidle _ _)
      | brokenOff => cases hphase'
  | closed => cases hphase'
  | hungUp id =>
      refine ⟨map_id_hangUp l id, Or.inr ⟨game', accepting', hphase', fun first past h => ?_⟩⟩
      rw [List.append_nil]
      exact h.hangUp id

end Lobby

end FourInRow
