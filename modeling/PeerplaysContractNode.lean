import PeerplaysContractNode.Chain.Database
import PeerplaysContractNode.Sync.BlockIds
import PeerplaysContractNode.Sync.Synopsis
import PeerplaysContractNode.Sync.SynopsisContent
import PeerplaysContractNode.Sync.SynopsisSpacing
import PeerplaysContractNode.Sync.Exchange
import PeerplaysContractNode.Node.BlockDelivery
import PeerplaysContractNode.Registry.ChainHandler
import PeerplaysContractNode.Monitor.TableMonitor
import PeerplaysContractNode.Monitor.ObserveContract
import PeerplaysContractNode.Node.Plugins
import PeerplaysContractNode.Infra.StringT
import PeerplaysContractNode.Infra.Demarcation
import PeerplaysContractNode.Infra.ApiManager
import PeerplaysContractNode.Infra.Modular
