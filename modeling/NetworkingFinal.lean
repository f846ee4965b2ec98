import NetworkingFinal.App.Requester
import NetworkingFinal.App.Restart
import NetworkingFinal.App.Secrecy
import NetworkingFinal.Client.Decoding
import NetworkingFinal.Client.Destination
import NetworkingFinal.Client.Truncation
import NetworkingFinal.Dhcp.Exhaustion
import NetworkingFinal.Dhcp.Grammar
import NetworkingFinal.Dhcp.Parameters
import NetworkingFinal.Dhcp.Restart
import NetworkingFinal.Dns.Questions
import NetworkingFinal.Dns.Resolver
import NetworkingFinal.Net.Datagrams
import NetworkingFinal.Net.Fetching
import NetworkingFinal.Net.Listing
import NetworkingFinal.Net.Senders
import NetworkingFinal.Net.Service
import NetworkingFinal.Net.Upload
