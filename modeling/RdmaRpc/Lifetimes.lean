import RdmaRpc.Server.Lifetimes
import RdmaRpc.Client.Lifetimes

/-!
# Lifetimes

Connection records on both sides.  A record is used by the handlers of its own side only, so the
runs of the server and of each client say all there is to say.
-/

namespace RdmaRpc
open Lib

section
variable {cfg : ServerCfg} {mem mem' : Mem} {tr : List Server.Event} {tr' : List Client.Event}
  {s : Server} {c : Client × Mem} {conn : ConnId} {qp : QpNum} {buf : Nat}

/-- **Lifetimes.**  In runs whose steps spare the records still needed, no use of a connection goes
wrong, on the server or on a client. -/
theorem connections_outlive_uses (ho : Along Server.step Server.Orderly (Server.init cfg mem) tr)
    (h : run Server.step (Server.init cfg mem) tr = .ok s)
    (ho' : Along Client.step (fun c e => c.1.Orderly e) (Client.init conn qp buf, mem') tr')
    (h' : run Client.step (Client.init conn qp buf, mem') tr' = .ok c) :
    s.ConnSafe ∧ c.1.ConnSafe :=
  ⟨Server.connSafe_run ho h, Client.connSafe_run ho' h'⟩

end

/-- A request is answered on both sides, and then the connection is taken down. -/
theorem connSafe_answered :
    (∃ s, run Server.step (Server.init oneContext fun _ => 0) ([.connectRequest 7] ++
        Server.oneRound 7 0 ++ [.disconnected 0, .destroyQp true, .freeConn]) = .ok s ∧
      s.conns 0 = none ∧ s.ConnSafe) ∧
    (∃ c, run Client.step (Client.init 0 7 4096, fun _ => 0)
        ([.sendReq Client.smallReq 0 false false, .transmit, .sendDone .good] ++
          Client.answerSmallReq ++ Client.disconnect) = .ok c ∧
      c.1.called.length = 1 ∧ c.1.stage = .freed ∧ c.1.ConnSafe) := by
  have h : run Server.step (Server.init oneContext fun _ => 0) ([.connectRequest 7] ++
      Server.oneRound 7 0 ++ [.disconnected 0, .destroyQp true, .freeConn]) = .ok _ := rfl
  have ho : Along Server.step Server.Orderly (Server.init oneContext fun _ => 0)
      ([.connectRequest 7] ++ Server.oneRound 7 0 ++
        [.disconnected 0, .destroyQp true, .freeConn]) := by decide +kernel
  obtain ⟨c, h', ho', hcalled, hgone⟩ := Client.orderly_answered
  obtain ⟨hserver, hclient⟩ := connections_outlive_uses ho h ho' h'
  exact ⟨⟨_, h, rfl, hserver⟩, c, h', hcalled, hgone, hclient⟩

/-- The first receive of a context fails, and `on_write_resp_done` reads the connection of a
context that never had one; a handler answers when the client is gone; and a poller handles a
completion between two steps of `on_disconnect`, on the server and on a client. -/
theorem records_gone :
    (∃ s, run Server.step (Server.init oneContext fun _ => 0) [.connectRequest 7, .take 7,
        .arriveFail 7 5 ⟨.recv, 0, 0, false⟩ (fun _ => 0) ⟨7, 0⟩, .poll 0 1] = .ok s ∧
      Server.step s (.handle 0) = .fault .nullConn ∧ ¬ s.ConnSafe) ∧
    (∃ s, run Server.step (Server.init oneContext fun _ => 0) ([.connectRequest 7] ++
        Server.upToCall 7 ++ [.disconnected 0, .destroyQp true, .freeConn]) = .ok s ∧
      Server.step s (.answer 0 4108 4) = .fault .freedConn ∧ ¬ s.ConnSafe) ∧
    (∃ s, run Server.step (Server.init Server.sixContexts fun _ => 0) [.connectRequest 7, .take 7,
        .place 7 (List.replicate 16 0), .arrive 7 (some 0) ⟨7, 0⟩, .disconnected 0, .poll 1 1,
        .handle 1] = .ok s ∧
      Server.step s (.dispatch 1) = .fault .assertConn ∧ ¬ s.ConnSafe) ∧
    (∃ c, run Client.step (Client.init 0 7 4096, fun _ => 0)
        [.sendReq Client.smallReq 0 false false, .transmit, .deliver 0 0 4, .disconnected,
          .poll 1 1] = .ok c ∧
      Client.react c.1 (.handle 1) = .fault .freedPool ∧ ¬ c.1.ConnSafe) := by
  refine ⟨⟨_, rfl, rfl, fun h => ?_⟩, ⟨_, rfl, rfl, fun h => ?_⟩, ⟨_, rfl, rfl, fun h => ?_⟩, ?_⟩
  · exact absurd (h (.handle 0) .nullConn rfl) (by decide)
  · exact absurd (h (.answer 0 4108 4) .freedConn rfl) (by decide)
  · exact absurd (h (.dispatch 1) .assertConn rfl) (by decide)
  · obtain ⟨free, h⟩ := Client.run_smallReq
    refine ⟨_, run_append_eq_ok.mpr ⟨_, h, rfl⟩, rfl, fun h => ?_⟩
    exact absurd (h 1 .freedPool (.inl rfl)) (by decide)

end RdmaRpc
