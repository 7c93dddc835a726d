import Smews.Input.Receive

/-! What the arrival of a packet above IP does.
-/

namespace Smews.Input

open Smews.Core

variable {p : Program} {s s' : Server} {srcAddr : UInt32} {protocol : UInt8} {payload : List UInt8}

/-- The connection that is added for a packet, with the value that `dopacketin` returned. -/
def gpIpConnection (h : HandlerRef) (srcAddr : UInt32) (protocol : UInt8) (payload : List UInt8)
    (wantToSend : UInt8)
    : GpIpConnection :=
  {
    ipAddr := srcAddr
    outputHandler := h
    payloadSize := UInt16.ofNat payload.length
    protocol
    wantToSend
  }

/-- What `dopacketin` may ask about the connection. -/
def gpIpInfo (p : Program) (h : HandlerRef) (srcAddr : UInt32) (protocol : UInt8)
    (payload : List UInt8) (a : Addr)
    : ConnectionInfo :=
  (gpIpConnection h srcAddr protocol payload p.garbage.toUInt8).info a

/-- What the arrival of a packet above IP does: nothing without a handler for it or without room for
its connection; otherwise the handler is called and its connection added, unless the handler returned
0.
-/
inductive ReceivesGpIp (p : Program) (srcAddr : UInt32) (protocol : UInt8) (payload : List UInt8)
    (s s' : Server)
    : Prop
  | unknown (handler : p.gpIpGetOutputHandler protocol = none) (same : s' = s)
  | exhausted (heap : Heap) (alloc : s.heap.memAlloc p.sizeofConnection = (none, heap))
    (same : s' = { s with heap })
  | dropped (h : HandlerRef) (g : GpIpHandlers) (a : Addr) (heap : Heap)
    (handler : p.gpIpGetOutputHandler protocol = some h) (data : (p.handler h).data = .generalIp g)
    (alloc : s.heap.memAlloc p.sizeofConnection = (some a, heap))
    (code : g.dopacketin heap.starts s.packetCalls (gpIpInfo p h srcAddr protocol payload a) payload = 0)
    (same : s' = {
      s with
      heap := heap.memFree (some a) p.sizeofConnection
      packetCalls :=
        s.packetCalls ++ [.packetIn h (gpIpInfo p h srcAddr protocol payload a) payload 0]
    })
  | accepted (h : HandlerRef) (g : GpIpHandlers) (a : Addr) (heap : Heap) (code : UInt8)
    (handler : p.gpIpGetOutputHandler protocol = some h) (data : (p.handler h).data = .generalIp g)
    (alloc : s.heap.memAlloc p.sizeofConnection = (some a, heap))
    (returned :
      g.dopacketin heap.starts s.packetCalls (gpIpInfo p h srcAddr protocol payload a) payload = code)
    (nonzero : code ≠ 0)
    (same : s' = {
      s with
      heap
      packetCalls :=
        s.packetCalls ++ [.packetIn h (gpIpInfo p h srcAddr protocol payload a) payload code]
      connections :=
        s.connections ++ [⟨a, .gpip (gpIpConnection h srcAddr protocol payload code)⟩]
    })

theorem smewsReceiveGpIp_receives (step : smewsReceiveGpIp p srcAddr protocol payload s = some s')
    : ReceivesGpIp p srcAddr protocol payload s s' := by
  unfold smewsReceiveGpIp at step
  cases handler : p.gpIpGetOutputHandler protocol with
  | none =>
      rw [handler] at step
      exact .unknown handler (Option.some.inj step).symm
  | some h =>
      simp only [handler] at step
      cases data : (p.handler h).data with
      | generalIp g =>
          simp only [data] at step
          unfold Server.addConnection at step
          rcases alloc : s.heap.memAlloc p.sizeofConnection with ⟨a | a, heap⟩
          · simp only [alloc, Option.some.injEq] at step
            exact .exhausted heap alloc step.symm
          · have stored (c c' : GpIpConnection)
                : ({ s with heap, connections := s.connections ++ [⟨a, .gpip c⟩] } : Server).setGpIp
                    s.connections.length c'
                  = { s with heap, connections := s.connections ++ [⟨a, .gpip c'⟩] } := by
              rw [Server.setGpIp]
              dsimp only
              rw [Server.modify_last]
            simp only [alloc, List.length_append, List.length_singleton, Nat.add_sub_cancel, stored]
              at step
            split_ifs at step with code
            · have free (c : GpIpConnection) (packetCalls : List PacketCall) :=
                Server.freeConnection_gpIp (p := p) (s := {
                  s with
                  heap, packetCalls
                  connections := s.connections ++ [⟨a, .gpip c⟩]
                }) rfl
              rw [free, Option.some.injEq] at step
              subst step
              refine .dropped h g a heap handler data alloc code ?_
              simp only [gpIpInfo, gpIpConnection, code]
            · exact .accepted h g a heap _ handler data alloc rfl code (Option.some.inj step).symm
      | _ => simp [data] at step

end Smews.Input
