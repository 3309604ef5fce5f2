import Notebook.Cyber.ServiceDiscovery.NodeManager

/-!
# The service manager

`ServiceManager` (`service_discovery/specific_manager/service_manager.cc`) keeps the servers of all
services, one for each service id, and the clients, any number for each service id. A server that
joins takes the place of the one that is stored under its service id, whatever the timestamps, and
one that leaves removes what is stored there; a client that leaves removes the clients that match
it.
-/

open Container

namespace Cyber

/-- `RoleServer`, of which `RoleClient` is another name. -/
abbrev RoleServer : Type := RoleBase

/-- `RoleServer::Match` -/
def RoleServer.matches (r : RoleServer) (target : RoleAttributes) : Bool :=
  if target.serviceId.isSome && target.getServiceId != r.attributes.getServiceId then false
  else RoleBase.matches r target

/-- `ServiceManager` -/
structure ServiceManager extends Manager where
  servers : SingleValueWarehouse := ∅
  clients : MultiMap ℕ RoleServer := []

namespace ServiceManager

/-- The roles in `allowed_role_`. -/
def isAllowed (role : RoleType) : Bool := role = .server || role = .client

/-- `Check` -/
def check (a : RoleAttributes) : Bool := a.serviceName.isSome && a.serviceId.isSome

variable (m : ServiceManager)

/-- `HasService`, where `hash` is `common::Hash`. -/
def hasService (hash : String → ℕ) (serviceName : String) : Bool :=
  (m.servers.search (hash serviceName)).isSome

/-- `DisposeJoin` -/
def disposeJoin (msg : ChangeMsg) : ServiceManager :=
  let role : RoleServer := { attributes := msg.roleAttr }
  let key := role.attributes.getServiceId
  if msg.roleType = .server then { m with servers := m.servers.add key role }
  else { m with clients := m.clients.add key role }

/-- `clients_.Remove(service_id, role)` -/
def removeClient (clients : MultiMap ℕ RoleServer) (role : RoleServer) : MultiMap ℕ RoleServer :=
  clients.remove role.attributes.getServiceId fun r => RoleServer.matches r role.attributes

/-- `DisposeLeave` -/
def disposeLeave (msg : ChangeMsg) : ServiceManager :=
  let role : RoleServer := { attributes := msg.roleAttr }
  if msg.roleType = .server then
    { m with servers := m.servers.remove role.attributes.getServiceId }
  else { m with clients := removeClient m.clients role }

/-- `Dispose` -/
def dispose (msg : ChangeMsg) : ServiceManager :=
  if msg.operateType = .join then m.disposeJoin msg else m.disposeLeave msg

/-- `OnTopoModuleLeave` -/
def onTopoModuleLeave (hostName : String) (processId : ℤ) : ServiceManager :=
  if !m.isDiscoveryStarted then m
  else
    let attr : RoleAttributes := { hostName := some hostName, processId := some processId }
    { m with
      servers := m.servers.removeAll (·.getServiceId)
        (m.servers.searchAll (RoleServer.matches · attr))
      clients := (m.clients.values.filter (RoleServer.matches · attr)).foldl removeClient
        m.clients }

/-- The message that a call passes to `Dispose`, if any. -/
def accepted (e : Manager.Event) : Option ChangeMsg :=
  m.toManager.accepted isAllowed check e

/-- The effect of a call. -/
def step : Manager.Event → ServiceManager
  | .onTopoModuleLeave hostName processId _ => m.onTopoModuleLeave hostName processId
  | e => (m.accepted e).elim m m.dispose

end ServiceManager

end Cyber
