import K0Torrent.Library.BigEndian
import K0Torrent.Library.Machine
import K0Torrent.Library.FirstSeen
import K0Torrent.Library.Frames
import K0Torrent.Peer.Framing
import K0Torrent.Peer.Handshake
import K0Torrent.Peer.PeerConnection
import K0Torrent.Peer.Delivery
import K0Torrent.Bencode.Progress
import K0Torrent.Bencode.Encode
import K0Torrent.Bencode.Grammar
import K0Torrent.Bencode.Canonical
import K0Torrent.Torrent.InfoHash
import K0Torrent.Torrent.Accepted
import K0Torrent.Disk.DiskManager
import K0Torrent.Disk.Containment
import K0Torrent.Disk.Span
import K0Torrent.Disk.Stored
import K0Torrent.Disk.Layout
import K0Torrent.Disk.Mapping
import K0Torrent.Disk.Places
import K0Torrent.Disk.Reading
import K0Torrent.Peer.Peer
import K0Torrent.Piece.PieceManager
import K0Torrent.Piece.Transitions
import K0Torrent.Piece.Blocks
import K0Torrent.Session.Session
import K0Torrent.Session.Transitions
import K0Torrent.Session.Invariant
import K0Torrent.Session.Rejected
import K0Torrent.Session.Owners
import K0Torrent.Session.Wakeup
import K0Torrent.Session.Storage
import K0Torrent.Session.Failures
import K0Torrent.Library.Chunks
import K0Torrent.Library.Fields
import K0Torrent.Piece.Geometry
import K0Torrent.Piece.Representation
import K0Torrent.Session.Intact
import K0Torrent.Disk.Assembly
import K0Torrent.Session.Ledger
import K0Torrent.Session.Requests
import K0Torrent.Session.Seeders
import K0Torrent.Session.Download
import K0Torrent.Tracker.TrackerManager
import K0Torrent.Tracker.Announce
import K0Torrent.Tracker.Schedule
import K0Torrent.Piece.Extents
import K0Torrent.Session.Trackers
import K0Torrent.Tracker.MoveToFront
import K0Torrent.Piece.Contents
import K0Torrent.Tracker.Retransmission
import K0Torrent.Library.Behaviour
import K0Torrent.Net.Stopping
import K0Torrent.Net.Dispatch
import K0Torrent.Peer.Network
import K0Torrent.Peer.Agreement
import K0Torrent.Peer.Coherence
import K0Torrent.Peer.Receiving
import K0Torrent.Piece.Outcomes
import K0Torrent.Net.Draining
import K0Torrent.Library.QueryString
import K0Torrent.Library.InetAddress
import K0Torrent.Tracker.HttpTracker
import K0Torrent.Library.Splitting
import K0Torrent.Tracker.Target
import K0Torrent.Tracker.PeerLists
import K0Torrent.Tracker.Numbers
import K0Torrent.Tracker.Packet
import K0Torrent.Session.Availability
import K0Torrent.Session.Interest
import K0Torrent.Peer.Codec
import K0Torrent.Peer.Greeting
import K0Torrent.Net.PollSet
import K0Torrent.Peer.Disconnecting
import K0Torrent.Net.Passes
import K0Torrent.Library.Simulation
import K0Torrent.Client.Client
import K0Torrent.Client.Connections
import K0Torrent.Client.Messages
import K0Torrent.Client.Refinement
import K0Torrent.Client.Callback
import K0Torrent.Client.Serving
import K0Torrent.Client.Ending
import K0Torrent.Library.Incremental
import K0Torrent.Client.Stream
import K0Torrent.Client.Outgoing
import K0Torrent.Client.Peering
import K0Torrent.Client.Progress
import K0Torrent.Disk.Origin
import K0Torrent.Session.Origin
import K0Torrent.Client.Origin
import K0Torrent.Library.Ownership
import K0Torrent.Net.Sockets
import K0Torrent.Tracker.Exchanges
import K0Torrent.Client.Process
import K0Torrent.Library.Truncation
import K0Torrent.Bencode.Truncated
import K0Torrent.Bencode.Record
import K0Torrent.Torrent.Written
import K0Torrent.Tracker.Replies
import K0Torrent.Client.Volume
import K0Torrent.Session.Authentic
import K0Torrent.Client.Contents
import K0Torrent.Client.Startup
import K0Torrent.Session.Completion
import K0Torrent.Tracker.UdpUrl
